import DepSolver.Lock
import DepSolver.Manifest
import DepSolver.PackageTree

/-!
Where versions come from: the questions that a search puts to a source, and a source that holds its
releases in memory.
-/

namespace DepSolver

/-- Why a source has no answer. -/
inductive SourceError
  /-- The project, or the version of it, does not exist. -/
  | notFound (root : ProjectRoot)
  | fetch (root : ProjectRoot) (message : String)
deriving DecidableEq

def SourceError.message : SourceError → String
  | notFound root => s!"project {root.path} could not be found"
  | fetch root message => s!"failed to fetch {root.path}: {message}"

/-- A question to a source: the versions of a project, newest first; the packages or the manifest of
a version; or the project that owns an import path. -/
inductive Query
  | versions (root : ProjectRoot)
  | tree (root : ProjectRoot) (version : Version)
  | manifest (root : ProjectRoot) (version : Version)
  | root (importPath : String)
deriving DecidableEq

/-- The text of a question, as in a log. -/
protected def Query.toString : Query → String
  | .versions project => s!"versions {project.path}"
  | .tree project version => s!"tree {project.path} {version}"
  | .manifest project version => s!"manifest {project.path} {version}"
  | .root importPath => s!"root {importPath}"

instance : ToString Query := ⟨Query.toString⟩

/-- What a successful answer holds. -/
def Query.Value : Query → Type
  | versions _ => List Version
  | tree _ _ => PackageTree
  | manifest _ _ => Manifest
  | root _ => ProjectRoot

/-- An answer to a question. -/
abbrev Query.Answer (q : Query) : Type := Except SourceError q.Value

/-- A source whose answers depend on the question alone. -/
abbrev VersionSource : Type := (q : Query) → q.Answer

/-- A version of a project with its packages and its manifest. -/
structure Release where
  version : Version
  tree : PackageTree
  manifest : Manifest
deriving DecidableEq

/-- A source that holds releases, and projects of which every question fails. -/
structure MemorySource where
  projects : Table ProjectRoot (List Release)
  failures : Table ProjectRoot String
deriving DecidableEq

namespace MemorySource

def empty : MemorySource := ⟨.empty, .empty⟩

instance : Inhabited MemorySource := ⟨empty⟩

/-- Add a release, in place of one of the same version. -/
def addRelease (m : MemorySource) (root : ProjectRoot) (r : Release) : MemorySource :=
  let others := ((m.projects.get? root).getD []).filter (·.version ≠ r.version)
  let releases := Sorting.sort (fun x y => Version.upgradeOrder x.version y.version) (others ++ [r])
  { m with projects := m.projects.insert root releases }

/-- The part of a path after its last slash. -/
def lastElement (path : String) : String :=
  .ofList (path.toList.reverse.takeWhile (· ≠ '/')).reverse

/-- A tree with one package, at the root, which has some imports. -/
def singlePackageTree (root : ProjectRoot) (imports : List String) : PackageTree :=
  (PackageTree.ofRoot root.path).insertPackage
    ⟨root.path, lastElement root.path, (SortedSet.ofList imports).toList, []⟩

/-- Add a release whose only package is at the root of its project. -/
def addPackageRelease (m : MemorySource) (root : ProjectRoot) (version : Version)
    (imports : List String) (manifest : Manifest) : MemorySource :=
  m.addRelease root ⟨version, singlePackageTree root imports, manifest⟩

/-- Let every question about a project fail. -/
def failFetch (m : MemorySource) (root : ProjectRoot) (message : String) : MemorySource :=
  { m with failures := m.failures.insert root message }

/-- The releases of a project, in the order of upgrades. -/
def releases (m : MemorySource) (root : ProjectRoot) : Except SourceError (List Release) :=
  match m.failures.get? root with
  | some message => .error (.fetch root message)
  | none =>
      match m.projects.get? root with
      | some releases => .ok releases
      | none => .error (.notFound root)

/-- The first release that is the same as a version. -/
def release (m : MemorySource) (root : ProjectRoot) (v : Version) : Except SourceError Release :=
  match m.releases root with
  | .error e => .error e
  | .ok releases =>
      match releases.find? (·.version.sameRelease v) with
      | some r => .ok r
      | none => .error (.notFound root)

/-- Of two projects, the one with the longer path. -/
def longer (best : Option ProjectRoot) (root : ProjectRoot) : Option ProjectRoot :=
  match best with
  | some b => if b.path.length ≤ root.path.length then some root else some b
  | none => some root

/-- The project of an import path: of those that own it the one with the longest root, or else the
one of its first three elements. -/
def rootOf (m : MemorySource) (path : String) : ProjectRoot :=
  ((m.projects.keys.filter (·.contains path)).foldl longer none).getD (.ofFirstElements path)

/-- The answers of the source. -/
def answer (m : MemorySource) : VersionSource
  | .versions root => (m.releases root).map fun l => l.map (·.version)
  | .tree root v => (m.release root v).map (·.tree)
  | .manifest root v => (m.release root v).map (·.manifest)
  | .root path => .ok (m.rootOf path)

/-- The answers of the source, where a project is always the first three elements of a path. -/
def answerPlain (m : MemorySource) : VersionSource
  | .root path => .ok (.ofFirstElements path)
  | q => m.answer q

end MemorySource

end DepSolver
