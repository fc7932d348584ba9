import DepSolver.ConstraintSet
import DepSolver.Project.Base

/-!
A project with local sub-projects, which are solved together with it.
-/

namespace DepSolver

/-- A project and its local sub-projects. -/
structure MultiRepo where
  base : BaseProject
  declared : ProjectMeta
  subprojects : List BaseProject
deriving DecidableEq

/-- The failure of constraints that cannot hold together. -/
def AggregateError.toFailure (e : AggregateError) : Failure := .unsatisfiable e.message

namespace MultiRepo

/-- The directory of a sub-project: the first one that exists. -/
def locate? (t : FileTree) (b : BaseProject) (declared : ProjectMeta) (dep : String) :
    Option FilePath :=
  (declared.localGopaths.map fun gopath =>
    ((b.rootDir.join gopath).join ⟨"src"⟩).join ⟨dep⟩).find? t.isDirectory

/-- Load the sub-projects that are found. Their directories are no sources of the project itself. -/
def load (t : FileTree) (store : ManifestStore) (b : BaseProject) (declared : ProjectMeta) :
    Except Failure MultiRepo := do
  let found := declared.localDeps.filterMap fun dep =>
    (locate? t b declared dep).map fun directory => (dep, directory)
  let subprojects ← found.mapM fun (dep, directory) =>
    BaseProject.load t store directory (.ofString dep)
  let build := { b.build with skipDirs := b.build.skipDirs ++ declared.localGopaths }
  return ⟨{ b with build }, declared, subprojects⟩

/-- The import paths of the directories in which sub-projects are found. -/
def gopathRoots (m : MultiRepo) : List String :=
  m.declared.localGopaths.map fun p =>
    m.base.importRoot.join (.ofList (Text.strip (· = '/') p.text.toList))

/-- The packages of the project and of its sub-projects. Those of a sub-project replace everything
below its import root. -/
def packageTree (m : MultiRepo) (t : FileTree) : Except Failure PackageTree := do
  let own ← m.base.packageTree t
  m.subprojects.foldlM (fun tree sub => do
    return tree.merge (← sub.packageTree t) [sub.importRoot.path]) (own.strip m.gopathRoots)

/-- The constraints of the project and of its sub-projects. -/
def constraints (m : MultiRepo) : Except Failure ConstraintSet :=
  (ConstraintSet.aggregate ((m.base :: m.subprojects).map fun b =>
    (b.importRoot.path, b.manifest))).mapError (·.toFailure)

def ignoredPatterns (m : MultiRepo) : List String :=
  (m.base :: m.subprojects).flatMap (·.manifest.ignored)

def requiredPackages (m : MultiRepo) : SortedSet String :=
  m.subprojects.foldl (fun s sub => s.union sub.manifest.required) m.base.manifest.required

def localRoots (m : MultiRepo) : SortedSet ProjectRoot :=
  .ofList (m.subprojects.map (·.importRoot))

/-- The directories of the sub-projects by import root. -/
def vendorEntries (m : MultiRepo) : Table String FilePath :=
  .ofList (m.subprojects.map fun sub => (sub.importRoot.path, sub.rootDir))

end MultiRepo

end DepSolver
