import DepSolver.GoSource.Walk
import DepSolver.Lock.File
import DepSolver.Manifest

/-!
A project in a directory: its manifest, its lock, and what of its sources counts.
-/

namespace DepSolver

/-- What a project declares about local sub-projects. -/
structure ProjectMeta where
  /-- The project has local sub-projects. -/
  isRoot : Bool
  /-- The project is a local sub-project of another one. -/
  isChild : Bool
  /-- The import roots of the sub-projects. -/
  localDeps : List String
  /-- Directories, relative to the project, in which sub-projects are found below `src`. -/
  localGopaths : List FilePath
  /-- Whether a solve also exports a Godeps file. -/
  godepCompat : Bool
deriving DecidableEq, Inhabited

/-- The manifests of directories; a later one counts in place of an earlier one for the same
directory. -/
structure ManifestStore where
  manifests : List (FilePath × Manifest)
deriving DecidableEq, Inhabited

namespace ManifestStore

def insert (s : ManifestStore) (directory : FilePath) (m : Manifest) : ManifestStore :=
  ⟨(directory, m) :: s.manifests⟩

/-- The manifest of a directory; without one, nothing is declared. -/
def manifest (s : ManifestStore) (directory : FilePath) : Manifest :=
  ((s.manifests.find? fun (p, _) => p.sameAs directory).map (·.2)).getD .empty

end ManifestStore

/-- A project in a single directory. -/
structure BaseProject where
  rootDir : FilePath
  importRoot : ProjectRoot
  manifest : Manifest
  lock : Option Lock
  build : BuildOptions
deriving DecidableEq

namespace BaseProject

/-- Load the project of a directory, with its lock if it has one. -/
def load (t : FileTree) (store : ManifestStore) (rootDir : FilePath) (importRoot : ProjectRoot) :
    Except Failure BaseProject := do
  let lock ← Lock.ofPath? t (rootDir.join Lock.fileName)
  return ⟨rootDir, importRoot, store.manifest rootDir, lock, .standard⟩

/-- The packages of the project's own sources. -/
def packageTree (b : BaseProject) (t : FileTree) : Except Failure PackageTree :=
  PackageTree.build t b.rootDir b.importRoot.path b.build

end BaseProject

end DepSolver
