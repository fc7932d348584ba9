import DepSolver.PackageTree
import DepSolver.SortedSet

/-!
What packages import, directly and through each other. Imports that a tree has an entry for, and
those below its import root, are followed; other imports are collected unless they belong to the
standard library. Ignored paths are neither followed nor collected.
-/

namespace DepSolver

/-- A package that is reached but cannot be used. -/
inductive ReachFailure
  | missing (path : String) (importer : Option String)
  | broken (path message : String)
deriving DecidableEq

namespace ReachFailure

def message : ReachFailure → String
  | missing path importer =>
      s!"package {path} does not exist" ++ importer.elim "" fun i => s!" (imported by {i})"
  | broken path message => s!"package {path} could not be parsed: {message}"

def path : ReachFailure → String
  | missing path _ | broken path _ => path

end ReachFailure

/-- The packages of a tree that were reached, and the imports that lead out of it. -/
structure Reach where
  internal : SortedSet String
  external : SortedSet String
deriving DecidableEq

def Reach.empty : Reach := ⟨.empty, .empty⟩

instance : Inhabited Reach := ⟨.empty⟩

namespace PackageTree

/-- The imports of a package, with those of its tests if `tests` is set. -/
def importsOf (tests : Bool) (p : Package) : List String :=
  p.imports ++ if tests then p.testImports else []

/-- Whether an import is followed into the tree. -/
def follows (t : PackageTree) (path : String) : Bool :=
  t.contains path || (!t.importRoot.isEmpty && ImportPath.isWithin path t.importRoot)

/-- Paths that are to be visited, each with the package that imports it. -/
abbrev Pending := List (String × Option String)

/-- Sort the imports of a package that was just reached into those to visit and those that lead out
of the tree. -/
def sortImports (t : PackageTree) (ignored : IgnoreRules) (importer : String) (reach : Reach)
    (imports : List String) : Reach × Pending :=
  imports.foldl (fun (reach, pending) path =>
    if ignored.ignores path then (reach, pending)
    else if t.follows path then
      if reach.internal.contains path then (reach, pending)
      else (reach, pending ++ [(path, some importer)])
    else if ImportPath.isStandard path then (reach, pending)
    else ({ reach with external := reach.external.insert path }, pending)) (reach, [])

/-- Visit pending paths in order until none is left. A path is visited once at most, so the number
of steps is at most that of the seeds and of all imports; `fuel` is that number. -/
def visit (t : PackageTree) (ignored : IgnoreRules) (tests : Bool) :
    Nat → Reach → Pending → Except ReachFailure Reach
  | _, reach, [] => .ok reach
  | 0, reach, _ => .ok reach
  | fuel + 1, reach, (path, importer) :: pending =>
      if ignored.ignores path || reach.internal.contains path then
        visit t ignored tests fuel reach pending
      else
        match t.get? path with
        | none => .error (.missing path importer)
        | some (.broken message) => .error (.broken path message)
        | some (.package p) =>
            let reach := { reach with internal := reach.internal.insert path }
            let (reach, more) := t.sortImports ignored path reach (importsOf tests p)
            visit t ignored tests fuel reach (pending ++ more)

/-- The number of all imports in a tree. -/
def importCount (t : PackageTree) : Nat :=
  (t.validPackages.map fun p => p.imports.length + p.testImports.length).foldr (· + ·) 0

/-- What is reached from some packages, or the first package reached that cannot be used. -/
def reach (t : PackageTree) (seeds : List String) (ignored : IgnoreRules) (tests : Bool) :
    Except ReachFailure Reach :=
  t.visit ignored tests (seeds.length + t.importCount) .empty (seeds.map (·, none))

end PackageTree

end DepSolver
