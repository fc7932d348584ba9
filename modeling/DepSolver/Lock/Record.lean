import DepSolver.Failure
import DepSolver.Lock
import DepSolver.Toml.Parser
import DepSolver.Toml.Printer

/-!
Locks as text. A lock is written as a record, in which the version of a project is split into a
branch or a tag and a revision; the record is written as TOML.
-/

namespace DepSolver

/-- A locked project as it is written. -/
structure LockEntry where
  name : String
  branch : Option String
  version : Option String
  revision : Option String
  source : Option String
  packages : List String
deriving DecidableEq, Inhabited

/-- A lock as it is written. -/
structure LockRecord where
  inputsDigest : String
  projects : List LockEntry
deriving DecidableEq, Inhabited

namespace LockEntry

/-- A text, unless it is empty. -/
def nonEmpty (s : String) : Option String := if s.isEmpty then none else some s

def ofProject (p : LockedProject) : LockEntry :=
  let (revision, branch, version) := p.version.components
  { name := p.root.path
    branch := nonEmpty branch
    version := nonEmpty version
    revision := nonEmpty revision
    source := p.source
    packages := p.packages }

/-- The version of an entry. It has a branch or a tag, or a revision, or a revision with one of the
others, and not both of the others. -/
def version? (e : LockEntry) : Except Failure Version :=
  let pair (v : Version) := e.revision.elim v fun r => v.paired ⟨r⟩
  match e.branch, e.version, e.revision with
  | some _, some _, _ => .error (.input s!"lock entry {e.name} has both a branch and a version")
  | some branch, none, _ => .ok (pair (.branch branch none))
  | none, some tag, _ => .ok (pair (.ofTag tag))
  | none, none, some r => .ok (.revision ⟨r⟩)
  | none, none, none =>
      .error (.input s!"lock entry {e.name} has no version, branch or revision")

def toProject (e : LockEntry) : Except Failure LockedProject := do
  let version ← e.version?
  return { LockedProject.ofPackages (.ofString e.name) version e.packages with source := e.source }

/-- The names of the fields, in their order. -/
def fieldNames : List String := ["name", "branch", "version", "revision", "source", "packages"]

def ofToml (v : Toml) : Option LockEntry := do
  match ← v.fields? fieldNames with
  | [name, branch, version, revision, source, packages] =>
      return { name := ← (← name).string?
               branch := ← Toml.optional Toml.string? branch
               version := ← Toml.optional Toml.string? version
               revision := ← Toml.optional Toml.string? revision
               source := ← Toml.optional Toml.string? source
               packages := (← Toml.optional strings? packages).getD [] }
  | _ => none
where
  strings? (v : Toml) : Option (List String) := do (← v.array?).mapM Toml.string?

/-- The lines of an entry. -/
def render (e : LockEntry) : String :=
  let field (key : String) (value : Option String) :=
    value.elim "" fun s => Toml.renderEntry key (Toml.renderString s)
  "\n[[projects]]\n" ++ field "name" (some e.name) ++ field "branch" e.branch ++
    field "version" e.version ++ field "revision" e.revision ++ field "source" e.source ++
    Toml.renderEntry "packages" (Toml.renderStrings e.packages)

end LockEntry

namespace LockRecord

def ofLock (l : Lock) : LockRecord := ⟨l.inputsDigest, l.projects.map .ofProject⟩

def toLock (r : LockRecord) : Except Failure Lock := do
  return .ofProjects r.inputsDigest (← r.projects.mapM (·.toProject))

def ofToml (v : Toml) : Option LockRecord := do
  match ← v.fields? ["inputs-digest", "projects"] with
  | [digest, projects] =>
      return { inputsDigest := (← Toml.optional Toml.string? digest).getD ""
               projects := (← Toml.optional entries? projects).getD [] }
  | _ => none
where
  entries? (v : Toml) : Option (List LockEntry) := do (← v.array?).mapM LockEntry.ofToml

/-- The TOML text of a record. -/
def render (r : LockRecord) : String :=
  let digest := Toml.renderEntry "inputs-digest" (Toml.renderString r.inputsDigest)
  match r.projects with
  | [] => digest ++ Toml.renderEntry "projects" "[]"
  | projects => digest ++ String.join (projects.map (·.render))

/-- Read the TOML text of a record. -/
def parse (text : String) : Except Failure LockRecord :=
  match (Toml.parse text).bind ofToml with
  | some r => .ok r
  | none => .error (.input "Failed to parse lock")

end LockRecord

namespace Lock

/-- The text of a lock. -/
def render (l : Lock) : String := (LockRecord.ofLock l).render

/-- Read the text of a lock. -/
def parse (text : String) : Except Failure Lock := do (← LockRecord.parse text).toLock

end Lock

end DepSolver
