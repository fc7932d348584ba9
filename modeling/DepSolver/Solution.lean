import DepSolver.Lock

/-!
Solutions: a locked version for each project, and which projects import which.
-/

namespace DepSolver

/-- The result of a search. The importer `none` is the project that was solved. -/
structure Solution where
  projects : Table ProjectRoot LockedProject
  imports : Table (Option ProjectRoot) (SortedSet ProjectRoot)
  inputsDigest : String
  /-- The number of versions that were tried. -/
  attempts : Nat
deriving DecidableEq

namespace Solution

def size (s : Solution) : Nat := s.projects.size

def isEmpty (s : Solution) : Bool := s.projects.isEmpty

def project? (s : Solution) (root : ProjectRoot) : Option LockedProject := s.projects.get? root

def version? (s : Solution) (root : ProjectRoot) : Option Version :=
  (s.project? root).map (·.version)

/-- The projects that a project imports directly. -/
def importsOf (s : Solution) (importer : Option ProjectRoot) : List ProjectRoot :=
  (s.imports.get? importer).elim [] (·.toList)

/-- The lock of a solution. -/
def toLock (s : Solution) : Lock := .ofProjects s.inputsDigest s.projects.values

/-- A listing of a solution, with a line for each project. -/
protected def toString (s : Solution) : String :=
  String.join (s.projects.values.map fun p =>
    s!"{p.root.path} {p.version} [" ++ ", ".intercalate p.packages ++ "]\n")

instance : ToString Solution := ⟨Solution.toString⟩

end Solution

end DepSolver
