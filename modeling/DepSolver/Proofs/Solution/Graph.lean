import DepSolver.Proofs.Sorting
import DepSolver.Proofs.SortedSet
import DepSolver.Proofs.Table
import DepSolver.Solution.Graph
import Mathlib.Data.List.Nodup
import Mathlib.Logic.Relation

/-!
The nodes and edges of the import graph of a solution. What a node imports and what imports it are
listed once each and in order of the names, whichever way the edges are followed.
-/

namespace DepSolver

namespace Solution

variable {s : Solution} {n m : Option ProjectRoot}

/-- The project that was solved and the projects of the solution. -/
def HasNode (s : Solution) (n : Option ProjectRoot) : Prop :=
  ∀ root, n = some root → ∃ project, s.project? root = some project

/-- A recorded import of one node by another one. -/
structure Links (s : Solution) (n m : Option ProjectRoot) : Prop where
  source : s.HasNode n
  target : s.HasNode m
  imports : ∃ root, m = some root ∧ root ∈ s.importsOf n

theorem hasNode_none (s : Solution) : s.HasNode none := nofun

theorem hasNode_some_iff {root : ProjectRoot} :
    s.HasNode (some root) ↔ ∃ project, s.project? root = some project := by
  constructor
  · intro h
    exact h root rfl
  · rintro h other ⟨rfl⟩
    exact h

theorem hasNode_of_reflTransGen (h : Relation.ReflTransGen s.Links none n) : s.HasNode n := by
  cases h with
  | refl => exact s.hasNode_none
  | tail _ hlink => exact hlink.target

end Solution

namespace ImportGraph

variable {g : ImportGraph} {s : Solution} {rootName name : String} {n m : Node}

def nodes (g : ImportGraph) : List Node := none :: g.versions.keys.map some

theorem length_nodes (g : ImportGraph) : g.nodes.length = g.allLevels := by
  simp [nodes, allLevels, size, Table.size, Table.keys]

theorem nodup_nodes (g : ImportGraph) : g.nodes.Nodup := by
  refine List.nodup_cons.mpr ⟨by simp, g.versions.nodup_keys.map ?_⟩
  exact fun _ _ heq => Option.some.inj heq

theorem mem_nodes_ofSolution : n ∈ (ofSolution s rootName).nodes ↔ s.HasNode n := by
  cases n with
  | none => exact iff_of_true List.mem_cons_self s.hasNode_none
  | some root =>
      rw [Solution.hasNode_some_iff, nodes, List.mem_cons, List.mem_map]
      simp only [reduceCtorEq, Option.some.injEq, exists_eq_right, false_or, Table.mem_keys_iff]
      rw [ofSolution, Table.get?_map, Solution.project?]
      cases s.projects.get? root <;> simp

theorem node?_ofSolution_eq_some_iff :
    (ofSolution s rootName).node? name = some n ↔ n = some ⟨name⟩ ∧ s.HasNode n := by
  have hcontains : (ofSolution s rootName).versions.contains ⟨name⟩ = true ↔
      s.HasNode (some ⟨name⟩) := by
    rw [Table.contains_iff, ofSolution, Table.get?_map, Solution.hasNode_some_iff,
      Solution.project?]
    cases s.projects.get? ⟨name⟩ <;> simp
  rw [node?]
  split
  · rename_i hname
    constructor
    · rintro ⟨rfl⟩
      exact ⟨rfl, hcontains.mp hname⟩
    · rintro ⟨rfl, -⟩
      rfl
  · rename_i hname
    refine iff_of_false (by simp) ?_
    rintro ⟨rfl, hnode⟩
    exact hname (hcontains.mpr hnode)

theorem mem_dependencies_ofSolution : m ∈ (ofSolution s rootName).dependencies n ↔
    s.HasNode m ∧ ∃ root, m = some root ∧ root ∈ s.importsOf n := by
  have hproject : ∀ root, s.projects.contains root = true ↔ s.HasNode (some root) := fun root => by
    rw [Table.contains_iff, Solution.hasNode_some_iff, Solution.project?]
  rw [dependencies, ofSolution, Table.get?_map, Solution.importsOf]
  cases s.imports.get? n with
  | none => simp
  | some targets =>
      simp only [Option.map_some, Option.elim_some, List.mem_map, SortedSet.mem_toList,
        SortedSet.mem_filter, hproject]
      constructor
      · rintro ⟨root, ⟨hmem, hnode⟩, rfl⟩
        exact ⟨hnode, root, rfl, hmem⟩
      · rintro ⟨hnode, root, rfl, hmem⟩
        exact ⟨root, ⟨hmem, hnode⟩, rfl⟩

/-- Nodes are ordered by their names. The solved project comes after a project of its name. -/
def Precedes (g : ImportGraph) (n m : Node) : Prop :=
  compare (g.nameOf n) (g.nameOf m) = .lt ∨ (g.nameOf n = g.nameOf m ∧ n ≠ none ∧ m = none)

theorem not_precedes_self (g : ImportGraph) (n : Node) : ¬ g.Precedes n n := by
  rintro (hlt | ⟨-, hne, heq⟩)
  · simp at hlt
  · exact hne heq

theorem nodup_of_pairwise_precedes {l : List Node} (h : l.Pairwise g.Precedes) : l.Nodup := by
  apply h.imp
  rintro n m hprecedes rfl
  exact g.not_precedes_self n hprecedes

theorem pairwise_dependencies (g : ImportGraph) (n : Node) :
    (g.dependencies n).Pairwise g.Precedes := by
  rw [dependencies]
  cases g.edges.get? n with
  | none => exact .nil
  | some targets =>
      rw [Option.elim_some, List.pairwise_map]
      exact targets.sorted.imp fun {a b} hlt => .inl hlt

/-- At the nodes of a graph, the children are the nodes to which edges lead, in order. -/
structure Lists (g : ImportGraph) (edge : Node → Node → Prop) (children : Node → List Node) :
    Prop where
  mem_iff : ∀ n ∈ g.nodes, ∀ m, m ∈ children n ↔ edge n m
  mem_nodes : ∀ n ∈ g.nodes, ∀ m, edge n m → m ∈ g.nodes
  pairwise : ∀ n, (children n).Pairwise g.Precedes

theorem lists_dependencies (s : Solution) (rootName : String) :
    (ofSolution s rootName).Lists s.Links (ofSolution s rootName).dependencies where
  mem_iff n hn m := by
    rw [mem_nodes_ofSolution] at hn
    rw [mem_dependencies_ofSolution]
    exact ⟨fun ⟨htarget, himports⟩ => ⟨hn, htarget, himports⟩, fun h => ⟨h.target, h.imports⟩⟩
  mem_nodes n _ m h := mem_nodes_ofSolution.mpr h.target
  pairwise := pairwise_dependencies _

end ImportGraph

end DepSolver
