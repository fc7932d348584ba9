import DepSolver.Solution

/-!
The import graph of a solution: which imports lead from the solved project to which others, as trees
and as paths of text.
-/

namespace DepSolver

/-- The projects of a solution, joined by their imports. The node `none` is the project that was
solved, which has a name and no version. -/
structure ImportGraph where
  rootName : String
  versions : Table ProjectRoot Version
  edges : Table (Option ProjectRoot) (SortedSet ProjectRoot)
deriving DecidableEq

namespace ImportGraph

/-- A node of a graph. -/
abbrev Node := Option ProjectRoot

/-- The graph of a solution. Only imports of its own projects are edges. -/
def ofSolution (s : Solution) (rootName : String) : ImportGraph where
  rootName := rootName
  versions := s.projects.map fun _ p => p.version
  edges := s.imports.map fun _ targets => targets.filter s.projects.contains

/-- The number of projects, apart from the one that was solved. -/
def size (g : ImportGraph) : Nat := g.versions.size

/-- The node of a project. The project that was solved is not found by its name. -/
def node? (g : ImportGraph) (name : String) : Option Node :=
  if g.versions.contains ⟨name⟩ then some (some ⟨name⟩) else none

def nameOf (g : ImportGraph) : Node → String
  | none => g.rootName
  | some root => root.path

/-- The text of a node: its name, and its version if that has a text. -/
def label (g : ImportGraph) (n : Node) : String :=
  let version := (n.bind g.versions.get?).elim "" toString
  if version.isEmpty then g.nameOf n else s!"{g.nameOf n} {version}"

/-- What a node imports, in order of the names. -/
def dependencies (g : ImportGraph) (n : Node) : List Node :=
  (g.edges.get? n).elim [] fun targets => targets.toList.map some

def imports (g : ImportGraph) (n target : Node) : Bool := (g.dependencies n).contains target

/-- The nodes that import a node, in order of the names. A project comes before the solved project
if these have the same name. -/
def dependents (g : ImportGraph) (n : Node) : List Node :=
  let importers := (g.versions.keys.map some ++ [none]).filter (g.imports · n)
  Sorting.sort (Order.through g.nameOf compare) importers

/-- A line of a drawn tree. For the node and every ancestor but the root of the tree, from the top
down, `lasts` says whether it is the last child of its parent. -/
structure Line where
  lasts : List Bool
  node : Node
deriving DecidableEq

namespace Line

/-- How far the node is below the root of the tree. -/
def depth (l : Line) : Nat := l.lasts.length

/-- The strokes before the node. -/
def strokes : List Bool → String
  | [] => ""
  | [last] => if last then "└── " else "├── "
  | last :: rest => (if last then "    " else "│   ") ++ strokes rest

def render (g : ImportGraph) (l : Line) : String := strokes l.lasts ++ g.label l.node ++ "\n"

end Line

/-- Mark the last element of a list. -/
def markLast {α : Type} : List α → List (Bool × α)
  | [] => []
  | [a] => [(true, a)]
  | a :: rest => (false, a) :: markLast rest

/-- The lines of a node and of what is below it, at most `levels` levels down. A node that is among
its own ancestors is not opened again. -/
def linesAt (children : Node → List Node) :
    (levels : Nat) → (ancestors : List Node) → (lasts : List Bool) → Node → List Line
  | 0, _, lasts, n => [⟨lasts, n⟩]
  | levels + 1, ancestors, lasts, n =>
      if ancestors.contains n then [⟨lasts, n⟩]
      else
        ⟨lasts, n⟩ :: (markLast (children n)).flatMap fun (last, child) =>
          linesAt children levels (n :: ancestors) (lasts ++ [last]) child

/-- The lines below a node, at most `levels` levels down and at least the first level. -/
def linesBelow (children : Node → List Node) (levels : Nat) (n : Node) : List Line :=
  (markLast (children n)).flatMap fun (last, child) =>
    linesAt children (levels - 1) [n] [last] child

/-- A number of levels that no tree without an opened repetition exceeds. -/
def allLevels (g : ImportGraph) : Nat := g.size + 1

/-- Draw a node and the lines below it. -/
def draw (g : ImportGraph) (n : Node) (lines : List Line) : String :=
  g.label n ++ "\n" ++ String.join (lines.map (·.render g))

/-- The tree of imports from the solved project, at most some levels deep. -/
def renderTree (g : ImportGraph) (depth : Option Nat) : String :=
  let levels := depth.elim g.allLevels (min · g.allLevels)
  g.draw none (linesBelow g.dependencies levels none)

/-- The tree of the importers of a project; nothing if the project is not in the solution. -/
def renderImporters (g : ImportGraph) (name : String) : String :=
  match g.node? name with
  | some n => g.draw n (linesBelow g.dependents g.allLevels n)
  | none => ""

/-- The first path from a node to another one in a depth-first walk, with the nodes that were
visited. No node is visited twice; `fuel` bounds the length of the path. -/
def pathFrom (g : ImportGraph) (target : Node) :
    (fuel : Nat) → (visited : List Node) → Node → Option (List Node) × List Node
  | 0, visited, _ => (none, visited)
  | fuel + 1, visited, n =>
      if n = target then (some [n], visited)
      else if visited.contains n then (none, visited)
      else
        let (path, visited) := (g.dependencies n).foldl (fun (path, visited) child =>
          match path with
          | some path => (some path, visited)
          | none => g.pathFrom target fuel visited child) (none, n :: visited)
        (path.map (n :: ·), visited)

/-- A path of imports from the solved project to a project. -/
def path? (g : ImportGraph) (name : String) : Option (List Node) :=
  (g.node? name).bind fun n => (g.pathFrom n (g.size + 2) [] none).1

/-- Say how a project comes into the solution. -/
def renderPath (g : ImportGraph) (name : String) : String :=
  match g.path? name with
  | some path =>
      s!"Path to {name}:\n" ++ String.join (path.zipIdx.map fun (n, i) =>
        String.ofList (List.replicate (2 * i) ' ') ++ g.label n ++ "\n")
  | none => s!"Project '{name}' is not in the solution.\n"

end ImportGraph

end DepSolver
