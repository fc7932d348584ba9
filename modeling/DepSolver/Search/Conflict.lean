import DepSolver.ConstraintSet
import DepSolver.Failure
import DepSolver.PackageTree.Reach
import DepSolver.Source

/-!
Why a search fails: the conflicts that it ran into, each with the constraints that applied.
-/

namespace DepSolver

/-- Why a project cannot be served. -/
inductive ConflictReason
  /-- No version satisfies every constraint. -/
  | emptyIntersection
  /-- The project has no version that satisfies the constraints. -/
  | noMatchingVersion (available : List Version)
  /-- A version cannot be had, or a later constraint rejects it. -/
  | versionRejected (version : Version)
  | missingPackage (path : String) (version : Version)
  | brokenPackage (path : String) (version : Version) (message : String)
  | projectNotFound
  /-- Every version that satisfies the constraints was tried. -/
  | candidatesExhausted (tried : List Version)
deriving DecidableEq

namespace ConflictReason

/-- The versions of a list, separated by commas. -/
def listing (l : List Version) : String := ", ".intercalate (l.map toString)

protected def toString : ConflictReason → String
  | emptyIntersection => "constraints have no version in common"
  | noMatchingVersion [] => "no versions available"
  | noMatchingVersion available => s!"no matching version among {listing available}"
  | versionRejected version => s!"selected version {version} is rejected"
  | missingPackage path version => s!"package {path} does not exist at {version}"
  | brokenPackage path version message =>
      s!"package {path} at {version} could not be parsed: {message}"
  | projectNotFound => "project could not be found"
  | candidatesExhausted tried => s!"all candidates failed: {listing tried}"

instance : ToString ConflictReason := ⟨ConflictReason.toString⟩

/-- The reason of packages that cannot be used at a version. -/
def ofReachFailure (version : Version) : ReachFailure → ConflictReason
  | .missing path _ => .missingPackage path version
  | .broken path message => .brokenPackage path version message

end ConflictReason

/-- A project that cannot be served, with the constraints that applied to it. -/
structure ProjectConflict where
  root : ProjectRoot
  reason : ConflictReason
  contributions : List Contribution
deriving DecidableEq

protected def ProjectConflict.toString (c : ProjectConflict) : String :=
  s!"{c.root.path}: {c.reason}" ++ String.join (c.contributions.map fun x => s!"\n    {x}")

instance : ToString ProjectConflict := ⟨ProjectConflict.toString⟩

/-- The trace of a search that found nothing: the different conflicts in order of their projects,
and for each project in the order in which they arose; and how many versions were tried. -/
structure SolveFailure where
  conflicts : List ProjectConflict
  attempts : Nat
deriving DecidableEq

namespace SolveFailure

def isEmpty (f : SolveFailure) : Bool := f.conflicts.isEmpty

/-- The conflicts of one project. -/
def conflictsFor (f : SolveFailure) (root : ProjectRoot) : List ProjectConflict :=
  f.conflicts.filter (·.root = root)

protected def toString (f : SolveFailure) : String :=
  s!"no solution found after {f.attempts} attempt(s)" ++
    if f.conflicts.isEmpty then ""
    else
      s!"; conflicts ({f.conflicts.length}):" ++
        String.join (f.conflicts.map fun c => s!"\n  {c}")

instance : ToString SolveFailure := ⟨SolveFailure.toString⟩

end SolveFailure

/-- Why a solve has no solution to give. -/
inductive SolveError
  | unsatisfiable (failure : SolveFailure)
  | source (e : SourceError)
  /-- A package of the project that is solved cannot be used. -/
  | brokenRootPackage (path message : String)
  | cancelled
  /-- The search was broken off at the limit that it was given. -/
  | limitReached
deriving DecidableEq

namespace SolveError

def message : SolveError → String
  | unsatisfiable failure => toString failure
  | source e => e.message
  | brokenRootPackage path message => s!"root package {path} cannot be used: {message}"
  | cancelled => "solve cancelled"
  | limitReached => "search limit reached"

/-- The failure that an operation reports. -/
def toFailure : SolveError → Failure
  | unsatisfiable failure => .unsatisfiable (toString failure)
  | source e => .source e.message
  | brokenRootPackage path message => .unparsed path message
  | cancelled => .cancelled
  | limitReached => .other limitReached.message

end SolveError

end DepSolver
