import DepSolver.Project.MultiRepo
import DepSolver.Vendor

/-!
A workspace: several projects that are solved together against one lock.
-/

namespace DepSolver

/-- A workspace, with the project of each member. -/
structure Workspace where
  rootDir : FilePath
  members : List (WorkspaceMember × BaseProject)
  lock : Option Lock
deriving DecidableEq

namespace Workspace

/-- Load the members in order, and the lock of the workspace if it has one. -/
def load (t : FileTree) (store : ManifestStore) (rootDir : FilePath)
    (members : List WorkspaceMember) : Except Failure Workspace := do
  let loaded ← members.mapM fun m => do
    return (m, ← BaseProject.load t store (rootDir.join m.path) (.ofString m.name))
  let lock ← Lock.ofPath? t (rootDir.join Lock.fileName)
  return ⟨rootDir, loaded, lock⟩

def projects (w : Workspace) : List BaseProject := w.members.map (·.2)

/-- The ignored and required packages of all members. -/
def manifest (w : Workspace) : Manifest :=
  { Manifest.empty with
    required := w.projects.foldl (fun s b => s.union b.manifest.required) .empty
    ignored := (SortedSet.ofList (w.projects.flatMap (·.manifest.ignored))).toList }

/-- The packages of all members. Those of a member replace everything below its import root. -/
def packageTree (w : Workspace) (t : FileTree) : Except Failure PackageTree :=
  w.projects.foldlM (fun tree b => do
    return tree.merge (← b.packageTree t) [b.importRoot.path]) (PackageTree.ofRoot "")

/-- The constraints of all members, each with the name of its member as the origin. -/
def constraints (w : Workspace) : Except Failure ConstraintSet :=
  (ConstraintSet.aggregate (w.members.map fun (m, b) => (m.name, b.manifest))).mapError
    (·.toFailure)

def localRoots (w : Workspace) : SortedSet ProjectRoot :=
  .ofList (w.members.map fun (m, _) => .ofString m.name)

end Workspace

end DepSolver
