import DepSolver.Config
import DepSolver.Project
import DepSolver.Search.Session
import DepSolver.Solution.Godeps

/-!
Solving a project: its lock is written, and with it the Godeps file and the vendor links that the
project asks for.
-/

namespace DepSolver

/-- How a project is solved. -/
structure SolveOptions where
  mode : ResolutionMode
  /-- Only say what would change. -/
  dryRun : Bool
  /-- Solve even if the lock is fresh. -/
  force : Bool
  /-- Do not prefer the versions of the lock. -/
  changeAll : Bool
deriving DecidableEq, Inhabited

/-- The options of a configuration. -/
def SolveOptions.ofConfig (c : Config) : SolveOptions := ⟨c.mode, false, false, !c.preferLock⟩

/-- What a solve did. There is no solution if the lock was fresh, so that nothing had to be done. -/
structure SolveOutcome where
  solution : Option Solution
  diff : LockDiff
  lockWritten : Bool
  godeps : Option FilePath
  vendorFailures : List VendorFailure
deriving DecidableEq

/-- The outcome of a solve that did nothing. -/
def SolveOutcome.skipped : SolveOutcome := ⟨none, .none, false, none, []⟩

/-- Write the Godeps file of a solution into the directory of a project. -/
def Godeps.exportTo (directory : FilePath) (importRoot : ProjectRoot) (s : Solution) :
    OperationM FilePath := do
  let path := (directory.join ⟨"Godeps"⟩).join ⟨"Godeps.json"⟩
  Operation.onDisk (Disk.writeAtomic path (render importRoot s))
  return path

namespace Project

/-- Whether the lock of a project makes a solve unnecessary. -/
def isFresh (project : Project) (o : SolveOptions) (p : Parameters) : Bool :=
  !o.force && !o.changeAll && project.lock.any p.admitsLock

/-- Say what a solve would change. -/
def report (project : Project) (s : Solution) : OperationM SolveOutcome := do
  let diff := LockDiff.between project.lock s.toLock
  Operation.sayAll "Would" ((Text.lines (toString diff).toList).map .ofList)
  return { SolveOutcome.skipped with solution := some s, diff }

/-- Write the vendor links of a project, and warn of those that fail. -/
def linkAndWarn (project : Project) : OperationM (List VendorFailure) := do
  let failures ← Operation.change project.linkVendor
  Operation.sayAll "Vendor" (failures.map toString)
  return failures

/-- Write everything that follows from a solution. -/
def writeSolution (project : Project) (o : SolveOptions) (s : Solution) :
    OperationM SolveOutcome := do
  let update ← Lock.update project.rootDir project.lock s.toLock
  let outcome := { SolveOutcome.skipped with
    solution := some s
    diff := update.diff
    lockWritten := update.written }
  match o.mode with
  | .legacyPassthrough => return outcome
  | .standard =>
      let godeps ←
        if project.godepsCompat then
          some <$> Godeps.exportTo project.rootDir project.importRoot s
        else pure none
      return { outcome with godeps, vendorFailures := ← project.linkAndWarn }

/-- Solve a project in a session, and write the results unless they are only to be reported. -/
def solve (project : Project) (session : Session) (o : SolveOptions) :
    OperationM SolveOutcome := do
  let p ← Operation.check (← Operation.inspect project.parameters)
  let p := { p with changeAll := o.changeAll }
  if project.isFresh o p then
    Operation.say "Fresh" s!"{project.importRoot.path} lock is up to date"
    return .skipped
  Operation.say "Solving" project.rootDir.text
  let s ← Operation.check ((session.solve p).1.mapError (·.toFailure))
  if o.dryRun then project.report s else project.writeSolution o s

end Project

end DepSolver
