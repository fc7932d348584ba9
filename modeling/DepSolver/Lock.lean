import DepSolver.ProjectRoot
import DepSolver.SortedSet
import DepSolver.Sorting
import DepSolver.Table
import DepSolver.Version

/-!
Locks: the versions that a solve chose, and what changed from one lock to another.
-/

namespace DepSolver

/-- The version chosen for a project, and the packages that are used from it, as paths relative to
its root. -/
structure LockedProject where
  root : ProjectRoot
  version : Version
  packages : List String
  source : Option String
deriving DecidableEq, Inhabited

/-- A locked project without a source; its packages are put in order, each once. -/
def LockedProject.ofPackages (root : ProjectRoot) (version : Version) (packages : List String) :
    LockedProject :=
  ⟨root, version, (SortedSet.ofList packages).toList, none⟩

/-- A solution to start the next solve from, and the digest of the inputs that it solves. -/
structure Lock where
  inputsDigest : String
  projects : List LockedProject
deriving DecidableEq, Inhabited

namespace Lock

/-- The lock of some projects, which are put in order of their roots. -/
def ofProjects (inputsDigest : String) (projects : List LockedProject) : Lock :=
  ⟨inputsDigest, Sorting.sort (compareOn LockedProject.root) projects⟩

def project? (l : Lock) (root : ProjectRoot) : Option LockedProject :=
  Sorting.search? (compare ·.root root) l.projects

def version? (l : Lock) (root : ProjectRoot) : Option Version :=
  (l.project? root).map (·.version)

end Lock

/-- A project that is locked differently. -/
structure LockChange where
  root : ProjectRoot
  old : LockedProject
  new : LockedProject
deriving DecidableEq

/-- The difference between two locks. -/
structure LockDiff where
  digestChanged : Bool
  added : List LockedProject
  removed : List LockedProject
  changed : List LockChange
deriving DecidableEq

namespace LockDiff

/-- No difference. -/
def none : LockDiff := ⟨false, [], [], []⟩

/-- The projects of a lock by root. -/
def byRoot (l : Lock) : Table ProjectRoot LockedProject :=
  .ofList (l.projects.map fun p => (p.root, p))

/-- What a lock changes with respect to the one before it, if there was one. -/
def between (old : Option Lock) (new : Lock) : LockDiff :=
  match old with
  | .none => ⟨true, new.projects, [], []⟩
  | some old =>
      let before := byRoot old
      let after := byRoot new
      { digestChanged := old.inputsDigest ≠ new.inputsDigest
        added := (after.filter fun root _ => !before.contains root).values
        removed := (before.filter fun root _ => !after.contains root).values
        changed := after.entries.filterMap fun (root, p) =>
          match before.get? root with
          | some q => if q = p then .none else some ⟨root, q, p⟩
          | .none => .none }

def isEmpty (d : LockDiff) : Bool :=
  !d.digestChanged && d.added.isEmpty && d.removed.isEmpty && d.changed.isEmpty

/-- A listing of a difference, with a line for each item. -/
protected def toString (d : LockDiff) : String :=
  if d.isEmpty then "lock is up to date"
  else
    let digest := if d.digestChanged then "inputs digest changed\n" else ""
    let line (mark : String) (p : LockedProject) := s!"{mark} {p.root.path} {p.version}\n"
    let change (c : LockChange) :=
      if c.old.version = c.new.version then s!"~ {c.root.path} {c.new.version} (packages)\n"
      else s!"~ {c.root.path} {c.old.version} -> {c.new.version}\n"
    digest ++ String.join (d.added.map (line "+")) ++ String.join (d.removed.map (line "-")) ++
      String.join (d.changed.map change)

instance : ToString LockDiff := ⟨LockDiff.toString⟩

end LockDiff

end DepSolver
