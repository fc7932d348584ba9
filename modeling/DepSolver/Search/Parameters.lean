import DepSolver.ConstraintSet
import DepSolver.Digest
import DepSolver.Lock
import DepSolver.PackageTree.Reach

/-!
The inputs of a search, and their digest. The digest covers the inputs that determine a solution,
apart from the source and the lock.
-/

namespace DepSolver

/-- The inputs of a search. -/
structure Parameters where
  /-- The packages of the project that is solved, with those of the local projects. -/
  rootTree : PackageTree
  constraints : ConstraintSet
  ignored : IgnoreRules
  /-- Import paths that are needed even if nothing imports them. -/
  required : SortedSet String
  /-- Projects whose packages are in the root tree. -/
  localRoots : SortedSet ProjectRoot
  /-- A solution to prefer where it still fits. -/
  lock : Option Lock
  /-- Projects that the lock does not count for. -/
  toChange : SortedSet ProjectRoot
  /-- Let the lock count for no project. -/
  changeAll : Bool

namespace Parameters

/-- The inputs of a tree and its constraints, with nothing else. -/
def ofTree (rootTree : PackageTree) (constraints : ConstraintSet) : Parameters :=
  ⟨rootTree, constraints, .none, .empty, .empty, none, .empty, false⟩

instance : Inhabited Parameters := ⟨ofTree default default⟩

/-- The version to prefer for a project. -/
def lockedVersion? (p : Parameters) (root : ProjectRoot) : Option Version :=
  if p.changeAll || p.toChange.contains root then none
  else p.lock.bind (·.version? root)

/-- The import paths of the root tree's packages that are not ignored. -/
def ownSeeds (p : Parameters) : List String :=
  (p.rootTree.validPackages.map (·.importPath)).filter fun path => !p.ignored.ignores path

/-- The imports that lead out of the root tree; none if some package cannot be used. -/
def externalImports (p : Parameters) : SortedSet String :=
  match p.rootTree.reach p.ownSeeds p.ignored true with
  | .ok reach => reach.external
  | .error _ => .empty

/-- The lines of a table of constraints. -/
def constraintLines (kind : ConstraintKind) (t : Table ProjectRoot MergedConstraint) :
    List String :=
  t.entries.map fun (root, c) =>
    s!"{kind.name} {root.path} {c.constraint} " ++ c.source.getD "-"

/-- The inputs in lines, one for each fact. -/
def inputLines (p : Parameters) : List String :=
  [s!"root {p.rootTree.importRoot}"] ++
    p.externalImports.toList.map ("import " ++ ·) ++
    constraintLines .dependency p.constraints.dependencies ++
    constraintLines .override p.constraints.overrides ++
    p.ignored.patterns.map ("ignored " ++ ·) ++
    p.required.toList.map ("required " ++ ·) ++
    p.localRoots.toList.map ("local " ++ ·.path)

/-- The digest of the inputs. -/
def inputsDigest (p : Parameters) : String := Digest.ofLines p.inputLines

/-- Whether an import is served by the root tree or not at all, so that no project is looked up for
it. -/
def hides (p : Parameters) (path : String) : Bool :=
  p.rootTree.follows path || p.ignored.ignores path ||
    p.localRoots.toList.any (·.contains path)

/-- The number of import paths that the root tree and the required packages mention. -/
def importCount (p : Parameters) : Nat := p.required.toList.length + p.rootTree.importCount

/-- Whether a lock comes from the same inputs and satisfies the constraints on its projects. -/
def admitsLock (p : Parameters) (l : Lock) : Bool :=
  l.inputsDigest = p.inputsDigest &&
    l.projects.all fun project =>
      match p.constraints.effective? project.root with
      | some c => c.constraint.satisfiedBy project.version
      | none => true

end Parameters

end DepSolver
