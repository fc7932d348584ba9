import DepSolver.Constraint
import DepSolver.ProjectRoot
import DepSolver.SortedSet
import DepSolver.Table

/-!
What a project declares about its dependencies.
-/

namespace DepSolver

/-- A constraint on a project, and another location to fetch it from, if one is declared. -/
structure Declaration where
  constraint : Constraint
  source : Option String
deriving DecidableEq, Inhabited

/-- Which parts of a dependency are left out of the vendor tree. -/
structure PruneOptions where
  nestedVendor : Bool
  tests : Bool
  unusedPackages : Bool
  nonSource : Bool
deriving DecidableEq, Inhabited

/-- Nested vendor trees, tests and unused packages are left out. -/
def PruneOptions.standard : PruneOptions := ⟨true, true, true, false⟩

/-- Prune options with exceptions for some projects. -/
structure PruneRules where
  default : PruneOptions
  perProject : Table ProjectRoot PruneOptions
deriving DecidableEq, Inhabited

namespace PruneRules

def standard : PruneRules := ⟨.standard, .empty⟩

def forProject (p : PruneRules) (root : ProjectRoot) : PruneOptions :=
  (p.perProject.get? root).getD p.default

end PruneRules

/-- A project's constraints, overrides, required and ignored packages, and prune options. The
overrides count in the project that is solved, and nowhere else. -/
structure Manifest where
  constraints : Table ProjectRoot Declaration
  overrides : Table ProjectRoot Declaration
  required : SortedSet String
  ignored : List String
  prune : PruneRules
deriving DecidableEq

namespace Manifest

/-- The manifest that declares nothing. -/
def empty : Manifest := ⟨.empty, .empty, .empty, [], .standard⟩

instance : Inhabited Manifest := ⟨empty⟩

/-- The constraint declared for a project. -/
def constraint? (m : Manifest) (root : ProjectRoot) : Option Constraint :=
  (m.constraints.get? root).map (·.constraint)

def isEmpty (m : Manifest) : Bool :=
  m.constraints.isEmpty && m.overrides.isEmpty && m.required.isEmpty && m.ignored.isEmpty

end Manifest

end DepSolver
