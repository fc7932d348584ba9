import DepSolver.Proofs.Solution.Graph
import Mathlib.Data.List.Chain
import Mathlib.Data.List.Perm.Subperm

/-!
The trees of a graph line by line. A drawn tree has a line for each walk from its top along which no
node but the last one occurs twice, in preorder, and so a line for each node that can be reached. A
limit on the depth leaves out just the deeper lines.
-/

namespace DepSolver.ImportGraph

variable {g : ImportGraph} {edge : Node → Node → Prop} {children : Node → List Node}
  {top n m : Node} {walk : List Node} {ancestors : List Node} {levels more : Nat}

/-! ### Walks -/

/-- A walk from a node, given by the nodes after that one. No node but the last one occurs twice. -/
structure IsWalk (edge : Node → Node → Prop) (top : Node) (walk : List Node) : Prop where
  nonempty : walk ≠ []
  chain : (top :: walk).IsChain edge
  nodup : (top :: walk.dropLast).Nodup

/-- The ways on from a node, at most `levels` long, that go on from no node twice. -/
def continuations (children : Node → List Node) :
    (levels : Nat) → (ancestors : List Node) → Node → List (List Node)
  | 0, _, _ => [[]]
  | levels + 1, ancestors, n =>
      if ancestors.contains n then [[]]
      else
        [] :: (children n).flatMap fun m =>
          (continuations children levels (n :: ancestors) m).map (m :: ·)

/-- The walks from a node, at most `levels` long, in preorder. -/
def walksBelow (children : Node → List Node) (levels : Nat) (top : Node) : List (List Node) :=
  (children top).flatMap fun m => (continuations children (levels - 1) [top] m).map (m :: ·)

theorem continuations_root (children : Node → List Node) (levels : Nat) (top : Node) :
    continuations children (max levels 1) [] top = [] :: walksBelow children levels top := by
  obtain ⟨more, hmore⟩ : ∃ k, max levels 1 = k + 1 := ⟨max levels 1 - 1, by omega⟩
  obtain rfl : more = levels - 1 := by omega
  rw [hmore]
  rfl

theorem mem_continuations_iff : walk ∈ continuations children levels ancestors n ↔
    walk.length ≤ levels ∧ (n :: walk).IsChain (fun a b => b ∈ children a) ∧
      (n :: walk).dropLast.Nodup ∧ ∀ m ∈ (n :: walk).dropLast, m ∉ ancestors := by
  induction levels generalizing ancestors n walk with
  | zero =>
      rw [continuations, List.mem_singleton, Nat.le_zero, List.length_eq_zero_iff]
      refine ⟨?_, fun h => h.1⟩
      rintro rfl
      simp
  | succ levels ih =>
      rw [continuations]
      cases walk with
      | nil => split <;> simp
      | cons m walk =>
          rw [List.dropLast_cons_cons, List.nodup_cons, List.forall_mem_cons,
            List.isChain_cons_cons, List.length_cons, Nat.add_le_add_iff_right]
          by_cases hopened : n ∈ ancestors
          · simp [hopened]
          · simp only [List.contains_iff_mem, hopened, if_false, List.mem_cons, reduceCtorEq,
              List.mem_flatMap, List.mem_map, List.cons.injEq, false_or, not_false_eq_true,
              true_and]
            constructor
            · rintro ⟨_, hm, _, hwalk, rfl, rfl⟩
              obtain ⟨hlength, hchain, hnodup, hfree⟩ := ih.mp hwalk
              simp only [List.mem_cons, not_or] at hfree
              exact ⟨hlength, ⟨hm, hchain⟩, ⟨fun hn => (hfree n hn).1 rfl, hnodup⟩,
                fun k hk => (hfree k hk).2⟩
            · rintro ⟨hlength, ⟨hm, hchain⟩, ⟨hn, hnodup⟩, hfree⟩
              refine ⟨m, hm, walk, ih.mpr ⟨hlength, hchain, hnodup, fun k hk => ?_⟩, rfl, rfl⟩
              rw [List.mem_cons, not_or]
              exact ⟨fun heq => hn (heq ▸ hk), hfree k hk⟩

private theorem filter_continuations (h : levels ≤ more) :
    (continuations children more ancestors n).filter (fun walk => walk.length ≤ levels) =
      continuations children levels ancestors n := by
  induction levels generalizing more ancestors n with
  | zero =>
      cases more with
      | zero => rfl
      | succ more =>
          rw [continuations, continuations]
          split
          · rfl
          · simp [List.filter_flatMap, List.filter_map, Function.comp_def]
  | succ levels ih =>
      obtain ⟨more, rfl⟩ : ∃ k, more = k + 1 := ⟨more - 1, by omega⟩
      rw [continuations, continuations]
      split
      · rfl
      · rw [List.filter_cons_of_pos (by simp), List.filter_flatMap]
        simp only [List.filter_map, Function.comp_def, List.length_cons, Nat.add_le_add_iff_right,
          ih (Nat.le_of_succ_le_succ h)]

theorem mem_walksBelow_iff : walk ∈ walksBelow children levels top ↔
    walk.length ≤ max levels 1 ∧ IsWalk (fun a b => b ∈ children a) top walk := by
  have hnil : [] ∉ walksBelow children levels top := by simp [walksBelow]
  have hmem : walk ∈ walksBelow children levels top ↔
      walk ≠ [] ∧ walk ∈ continuations children (max levels 1) [] top := by
    rw [continuations_root, List.mem_cons]
    constructor
    · intro h
      exact ⟨fun heq => hnil (heq ▸ h), .inr h⟩
    · rintro ⟨hne, h⟩
      exact h.resolve_left hne
  rw [hmem, mem_continuations_iff]
  constructor
  · rintro ⟨hne, hlength, hchain, hnodup, -⟩
    rw [List.dropLast_cons_of_ne_nil hne] at hnodup
    exact ⟨hlength, hne, hchain, hnodup⟩
  · rintro ⟨hlength, hne, hchain, hnodup⟩
    rw [List.dropLast_cons_of_ne_nil hne]
    exact ⟨hne, hlength, hchain, hnodup, by simp⟩

private theorem filter_walksBelow (h : levels ≤ more) :
    (walksBelow children more top).filter (fun walk => walk.length ≤ max levels 1) =
      walksBelow children levels top := by
  have hmax : max levels 1 ≤ max more 1 := by omega
  have hall : (continuations children (max more 1) [] top).filter
      (fun walk => walk.length ≤ max levels 1) = _ := filter_continuations hmax
  rw [continuations_root, continuations_root, List.filter_cons_of_pos (by simp)] at hall
  exact (List.cons.inj hall).2

/-! ### Lines -/

/-- For each node of a walk, whether it is the last child of the one before it. -/
def marks (children : Node → List Node) : Node → List Node → List Bool
  | _, [] => []
  | n, m :: rest => decide ((children n).getLast? = some m) :: marks children m rest

def lineOf (children : Node → List Node) (top : Node) (walk : List Node) : Line :=
  ⟨marks children top walk, walk.getLastD top⟩

private theorem length_marks (children : Node → List Node) (n : Node) (walk : List Node) :
    (marks children n walk).length = walk.length := by
  induction walk generalizing n with
  | nil => rfl
  | cons m rest ih => rw [marks, List.length_cons, List.length_cons, ih]

theorem depth_lineOf (children : Node → List Node) (top : Node) (walk : List Node) :
    (lineOf children top walk).depth = walk.length :=
  length_marks children top walk

theorem markLast_eq {l : List Node} (h : l.Nodup) :
    markLast l = l.map fun n => (decide (l.getLast? = some n), n) := by
  induction l with
  | nil => rfl
  | cons n rest ih =>
      cases rest with
      | nil => simp [markLast]
      | cons m rest =>
          obtain ⟨hn, hrest⟩ := List.nodup_cons.mp h
          have hlast : (m :: rest).getLast? ≠ some n := fun hlast =>
            hn (List.mem_of_getLast? hlast)
          rw [markLast, ih hrest, List.map_cons (l := m :: rest), List.getLast?_cons_cons,
            decide_eq_false hlast]
          exact List.cons_ne_nil m rest

private theorem linesAt_eq (h : ∀ n, (children n).Nodup) (lasts : List Bool) :
    linesAt children levels ancestors lasts n =
      (continuations children levels ancestors n).map fun walk =>
        ⟨lasts ++ marks children n walk, walk.getLastD n⟩ := by
  induction levels generalizing ancestors n lasts with
  | zero => simp [linesAt, continuations, marks]
  | succ levels ih =>
      rw [linesAt, continuations]
      split
      · simp [marks]
      · rw [markLast_eq (h n), List.map_cons, List.flatMap_map, List.map_flatMap]
        simp only [ih, List.map_map, Function.comp_def, marks, List.append_nil, List.append_assoc,
          List.singleton_append, List.getLastD_cons, List.getLastD_nil]

theorem linesBelow_eq (h : ∀ n, (children n).Nodup) :
    linesBelow children levels top =
      (walksBelow children levels top).map (lineOf children top) := by
  rw [linesBelow, walksBelow, markLast_eq (h top), List.flatMap_map, List.map_flatMap]
  simp only [linesAt_eq h, List.map_map, Function.comp_def, lineOf, marks, List.singleton_append,
    List.getLastD_cons]

/-! ### Limited depth -/

theorem nodup_dependencies (g : ImportGraph) (n : Node) : (g.dependencies n).Nodup :=
  nodup_of_pairwise_precedes (g.pairwise_dependencies n)

/-- The lines of the whole tree of imports below the solved project. -/
def treeLines (g : ImportGraph) : List Line := linesBelow g.dependencies g.allLevels none

theorem filter_linesBelow (h : ∀ n, (children n).Nodup) (hle : levels ≤ more) :
    (linesBelow children more top).filter (fun l => l.depth ≤ max levels 1) =
      linesBelow children levels top := by
  rw [linesBelow_eq h, linesBelow_eq h, ← filter_walksBelow hle, List.filter_map]
  simp only [Function.comp_def, depth_lineOf]

private theorem depth_le_of_mem_linesBelow (h : ∀ n, (children n).Nodup) {l : Line}
    (hl : l ∈ linesBelow children levels top) : l.depth ≤ max levels 1 := by
  rw [linesBelow_eq h] at hl
  obtain ⟨walk, hwalk, rfl⟩ := List.mem_map.mp hl
  rw [depth_lineOf]
  exact (mem_walksBelow_iff.mp hwalk).1

/-- A limit leaves out the lines that are deeper, except that those of depth one always stay. -/
theorem renderTree_some (g : ImportGraph) (d : Nat) :
    g.renderTree none = g.draw none g.treeLines ∧
      g.renderTree (some d) = g.draw none (g.treeLines.filter fun l => l.depth ≤ max d 1) := by
  refine ⟨rfl, ?_⟩
  have hdraw : g.renderTree (some d) =
      g.draw none (linesBelow g.dependencies (min d g.allLevels) none) := rfl
  rw [hdraw, ← filter_linesBelow g.nodup_dependencies (Nat.min_le_right d g.allLevels), treeLines]
  congr 1
  refine List.filter_congr fun l hl => decide_eq_decide.mpr ?_
  have hdepth := depth_le_of_mem_linesBelow g.nodup_dependencies hl
  have hlevels : g.allLevels = g.size + 1 := rfl
  omega

/-- A solution of one project, which the solved project imports. -/
def singleSolution : Solution where
  projects := .ofList [(⟨"a.io"⟩, .ofPackages ⟨"a.io"⟩ (.branch "main" none) ["."])]
  imports := .ofList [(none, .ofList [⟨"a.io"⟩])]
  inputsDigest := ""
  attempts := 1

/-- With the limit zero, a line of depth one is drawn. -/
theorem renderTree_zero_singleSolution :
    (ofSolution singleSolution "root.io").renderTree (some 0) ≠
        (ofSolution singleSolution "root.io").draw none
          ((ofSolution singleSolution "root.io").treeLines.filter fun l => l.depth ≤ 0) ∧
      (ofSolution singleSolution "root.io").renderTree (some 0) =
        "root.io\n└── a.io main\n" := by
  decide +kernel

/-! ### Drawings -/

theorem Lists.mem_nodes_of_isChain (h : g.Lists edge children) (htop : top ∈ g.nodes)
    (hchain : (top :: walk).IsChain edge) : ∀ n ∈ top :: walk, n ∈ g.nodes := by
  induction walk generalizing top with
  | nil => simpa using htop
  | cons m walk ih =>
      obtain ⟨hedge, hrest⟩ := List.isChain_cons_cons.mp hchain
      exact List.forall_mem_cons.mpr ⟨htop, ih (h.mem_nodes top htop m hedge) hrest⟩

theorem Lists.isChain_iff (h : g.Lists edge children) (htop : top ∈ g.nodes) :
    (top :: walk).IsChain (fun a b => b ∈ children a) ↔ (top :: walk).IsChain edge := by
  induction walk generalizing top with
  | nil => simp
  | cons m walk ih =>
      rw [List.isChain_cons_cons, List.isChain_cons_cons, h.mem_iff top htop]
      exact and_congr_right fun hedge => ih (h.mem_nodes top htop m hedge)

theorem Lists.length_le (h : g.Lists edge children) (htop : top ∈ g.nodes)
    (hwalk : IsWalk edge top walk) : walk.length ≤ g.allLevels := by
  have hsub : top :: walk.dropLast ⊆ g.nodes := by
    intro n hn
    apply h.mem_nodes_of_isChain htop hwalk.chain
    exact List.cons_subset_cons top (List.dropLast_subset walk) hn
  have hlength := (List.subperm_of_subset hwalk.nodup hsub).length_le
  rw [length_nodes, List.length_cons, List.length_dropLast] at hlength
  have hpos := List.length_pos_of_ne_nil hwalk.nonempty
  omega

end DepSolver.ImportGraph
