import DepSolver.Config
import DepSolver.Project.Workspace
import DepSolver.Search.Parameters

/-!
Projects as a solve sees them: a plain one, one with local sub-projects, or a workspace.
-/

namespace DepSolver

/-- Something that can be solved. -/
inductive Project
  | base (b : BaseProject)
  | multiRepo (m : MultiRepo)
  | workspace (w : Workspace)
deriving DecidableEq

namespace Project

/-- Decide how a project is solved. With local sub-projects it is solved together with them, except
in the mode that takes a project as it is declared. A mere sub-project cannot be solved. -/
def ofBase (t : FileTree) (store : ManifestStore) (mode : ResolutionMode)
    (declared : Option ProjectMeta) (b : BaseProject) : Except Failure Project :=
  match mode, declared with
  | .legacyPassthrough, _ | _, none => .ok (.base b)
  | .standard, some d =>
      if d.isRoot then (MultiRepo.load t store b d).map .multiRepo
      else if d.isChild then .error (.input s!"{b.importRoot.path} is not a multi-repo root")
      else .ok (.base b)

/-- The import root; that of a workspace is empty, because it cannot be imported. -/
def importRoot : Project → ProjectRoot
  | base b => b.importRoot
  | multiRepo m => m.base.importRoot
  | workspace _ => ⟨""⟩

def rootDir : Project → FilePath
  | base b => b.rootDir
  | multiRepo m => m.base.rootDir
  | workspace w => w.rootDir

def manifest : Project → Manifest
  | base b => b.manifest
  | multiRepo m => m.base.manifest
  | workspace w => w.manifest

def lock : Project → Option Lock
  | base b => b.lock
  | multiRepo m => m.base.lock
  | workspace w => w.lock

/-- The packages of the project's sources. -/
def packageTree (p : Project) (t : FileTree) : Except Failure PackageTree :=
  match p with
  | base b => b.packageTree t
  | multiRepo m => m.packageTree t
  | workspace w => w.packageTree t

def constraints : Project → Except Failure ConstraintSet
  | base b => .ok (.ofManifest b.importRoot.path b.manifest)
  | multiRepo m => m.constraints
  | workspace w => w.constraints

def ignoredPatterns (p : Project) : List String :=
  match p with
  | multiRepo m => m.ignoredPatterns
  | p => p.manifest.ignored

def requiredPackages (p : Project) : SortedSet String :=
  match p with
  | multiRepo m => m.requiredPackages
  | p => p.manifest.required

/-- The projects whose packages are among the project's own. -/
def localRoots : Project → SortedSet ProjectRoot
  | base _ => .empty
  | multiRepo m => m.localRoots
  | workspace w => w.localRoots

/-- The local projects to link into the vendor directory, with their directories. -/
def vendorEntries : Project → Table String FilePath
  | multiRepo m => m.vendorEntries
  | _ => .empty

/-- Whether a solve also exports a Godeps file. -/
def godepsCompat : Project → Bool
  | multiRepo m => m.declared.godepCompat
  | _ => false

/-- Make the vendor links that the project needs. -/
def linkVendor : Project → StateM FileTree (List VendorFailure)
  | workspace w => Vendor.linkMembers w.rootDir (w.members.map (·.1))
  | p => Vendor.linkProjects p.rootDir p.vendorEntries

/-- The inputs of a solve. -/
def parameters (p : Project) (t : FileTree) : Except Failure Parameters := do
  let tree ← p.packageTree t
  let ignored ← IgnoreRules.ofPatterns p.ignoredPatterns
  let _ ← tree.checkErrors ignored
  return { Parameters.ofTree tree (← p.constraints) with
    ignored
    required := p.requiredPackages
    localRoots := p.localRoots
    lock := p.lock }

end Project

end DepSolver
