import DepSolver.Disk.FileTree
import DepSolver.Failure
import DepSolver.Toml.Parser

/-!
The user's configuration, in a file `config.toml` of the directory `.kdep` in the home directory.
-/

namespace DepSolver

/-- How a project is prepared for a solve: with its local sub-projects, or as it is declared. -/
inductive ResolutionMode
  | standard
  | legacyPassthrough
deriving DecidableEq, Inhabited

namespace ResolutionMode

def name : ResolutionMode → String
  | standard => "standard"
  | legacyPassthrough => "legacy-passthrough"

def ofName? (s : String) : Option ResolutionMode :=
  [standard, legacyPassthrough].find? (·.name = s)

end ResolutionMode

/-- The configuration. -/
structure Config where
  mode : ResolutionMode
  preferLock : Bool
  /-- The number of checks at a time; as many as there are processors if it is not given. -/
  parallelChecks : Option Nat
  /-- Which events are logged. -/
  logFilter : String
deriving DecidableEq

namespace Config

/-- The configuration without a file. -/
def standard : Config := ⟨.standard, true, none, "warn"⟩

instance : Inhabited Config := ⟨standard⟩

/-- Set what the section on solving says. -/
def setResolve (c : Config) (v : Toml) : Option Config := do
  match ← v.fields? ["mode", "prefer-lock", "parallel-checks"] with
  | [mode, preferLock, parallelChecks] =>
      let modes := [ResolutionMode.standard.name, ResolutionMode.legacyPassthrough.name]
      let mode ← Toml.optional (Toml.word? modes) mode
      let preferLock ← Toml.optional Toml.boolean? preferLock
      let parallelChecks ← Toml.optional (Toml.natural? (UInt32.size - 1)) parallelChecks
      return { c with
        mode := (mode.bind ResolutionMode.ofName?).getD c.mode
        preferLock := preferLock.getD c.preferLock
        parallelChecks := parallelChecks.or c.parallelChecks }
  | _ => none

/-- Set what the section on the log says. -/
def setLog (c : Config) (v : Toml) : Option Config := do
  match ← v.fields? ["filter"] with
  | [filter] =>
      return { c with logFilter := (← Toml.optional Toml.string? filter).getD c.logFilter }
  | _ => none

def ofToml (v : Toml) : Option Config := do
  match ← v.fields? ["resolve", "log"] with
  | [resolve, log] =>
      let c ← resolve.elim (some standard) standard.setResolve
      log.elim (some c) c.setLog
  | _ => none

/-- The number of checks at a time on a machine with some processors. -/
def parallelism (c : Config) (processors : Nat) : Nat := max (c.parallelChecks.getD processors) 1

/-- The directory of the configuration; `home` and `userProfile` are what the environment says about
the home directory. -/
def directory (home userProfile : Option String) : FilePath :=
  FilePath.join ⟨(home.or userProfile).getD "."⟩ ⟨".kdep"⟩

/-- The file of the configuration. -/
def defaultPath (home userProfile : Option String) : FilePath :=
  (directory home userProfile).join ⟨"config.toml"⟩

/-- Read a configuration from a file. -/
def ofPath (t : FileTree) (p : FilePath) : Except Failure Config :=
  match t.readText p with
  | .error e => .error (.input s!"Failed to read config {p.text}: {e.message}")
  | .ok s =>
      match (Toml.parse s).bind ofToml with
      | some c => .ok c
      | none => .error (.input s!"Failed to parse config {p.text}")

/-- The configuration of a user. -/
def load (t : FileTree) (home userProfile : Option String) : Except Failure Config :=
  let p := defaultPath home userProfile
  if t.isFile p then ofPath t p else .ok standard

end Config

end DepSolver
