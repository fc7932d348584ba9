import DepSolver.Proofs.Solution.Tree

/-!
The search for a path from the solved project to another one. All branches share the nodes that were
visited, and still a path is found whenever there is one: a branch that fails has visited everything
that it can reach.
-/

namespace DepSolver.ImportGraph

variable {g : ImportGraph} {edge : Node → Node → Prop} {target n m : Node} {fuel : Nat}
  {visited visited' l path : List Node}

/-! ### Nodes that are still to be visited -/

def unvisited (g : ImportGraph) (visited : List Node) : Nat :=
  (g.nodes.filter (· ∉ visited)).length

private theorem unvisited_le (h : visited ⊆ visited') : g.unvisited visited' ≤ g.unvisited visited
    := by
  apply List.Sublist.length_le
  apply List.monotone_filter_right
  intro n hn
  rw [decide_eq_true_eq] at hn ⊢
  exact fun hmem => hn (h hmem)

private theorem unvisited_cons_lt (hn : n ∈ g.nodes) (hvisited : n ∉ visited) :
    g.unvisited (n :: visited) < g.unvisited visited := by
  have hnodup : (n :: g.nodes.filter (· ∉ n :: visited)).Nodup :=
    List.nodup_cons.mpr ⟨by simp, g.nodup_nodes.filter _⟩
  have hsub : n :: g.nodes.filter (· ∉ n :: visited) ⊆ g.nodes.filter (· ∉ visited) := by
    refine List.cons_subset.mpr ⟨by simp [hn, hvisited], fun m hm => ?_⟩
    simp only [List.mem_filter, List.mem_cons, not_or, decide_eq_true_eq] at hm ⊢
    exact ⟨hm.1, hm.2.2⟩
  exact (List.subperm_of_subset hnodup hsub).length_le

/-! ### What a search finds -/

/-- A path between two nodes along the imports that visits no node twice. -/
structure IsPath (g : ImportGraph) (n target : Node) (path : List Node) : Prop where
  head : path.head? = some n
  last : path.getLast? = some target
  chain : path.IsChain fun a b => b ∈ g.dependencies a
  nodup : path.Nodup

/-- Of the nodes that were visited in between, each leads to visited ones only. -/
def IsClosed (g : ImportGraph) (visited visited' : List Node) : Prop :=
  ∀ n ∈ visited', n ∉ visited → ∀ m ∈ g.dependencies n, m ∈ visited'

theorem IsClosed.trans {visited'' : List Node} (h : g.IsClosed visited visited')
    (h' : g.IsClosed visited' visited'') (hsub : visited' ⊆ visited'') :
    g.IsClosed visited visited'' := by
  intro n hn hnew m hm
  by_cases hmem : n ∈ visited'
  · exact hsub (h n hmem hnew m hm)
  · exact h' n hn hmem m hm

/-- The outcome of a search that starts at some nodes: a path from one of them that keeps away from
the nodes visited before, or a set of visited nodes that is closed and lacks the target. -/
def Finds (g : ImportGraph) (target : Node) (starts visited : List Node) :
    Option (List Node) × List Node → Prop
  | (some path, _) => ∃ n ∈ starts, g.IsPath n target path ∧ ∀ m ∈ path, m ∉ visited
  | (none, visited') =>
      visited ⊆ visited' ∧ starts ⊆ visited' ∧ target ∉ visited' ∧ g.IsClosed visited visited'

theorem Finds.cons_some (h : g.Finds target [n] visited (some path, visited')) (l visited'') :
    g.Finds target (n :: l) visited (some path, visited'') := by
  obtain ⟨m, hm, hpath, haway⟩ := h
  rw [List.mem_singleton] at hm
  subst hm
  exact ⟨m, List.mem_cons_self, hpath, haway⟩

theorem Finds.cons_none (h : g.Finds target [n] visited (none, visited'))
    {found : Option (List Node) × List Node} (hrest : g.Finds target l visited' found) :
    g.Finds target (n :: l) visited found := by
  obtain ⟨hsub, hn, -, hclosed⟩ := h
  rcases found with ⟨_ | path, visited''⟩
  · obtain ⟨hsub', hl, htarget, hclosed'⟩ := hrest
    have hmem : n ∈ visited'' := hsub' (hn List.mem_cons_self)
    exact ⟨List.Subset.trans hsub hsub', List.cons_subset.mpr ⟨hmem, hl⟩, htarget,
      hclosed.trans hclosed' hsub'⟩
  · obtain ⟨m, hm, hpath, haway⟩ := hrest
    refine ⟨m, List.mem_cons_of_mem n hm, hpath, ?_⟩
    intro k hk hvisited
    exact haway k hk (hsub hvisited)

theorem IsPath.cons (h : g.IsPath m target path) (hedge : m ∈ g.dependencies n)
    (hn : n ∉ path) : g.IsPath n target (n :: path) := by
  obtain ⟨rest, rfl⟩ := List.head?_eq_some_iff.mp h.head
  refine ⟨rfl, ?_, List.isChain_cons_cons.mpr ⟨hedge, h.chain⟩, List.nodup_cons.mpr ⟨hn, h.nodup⟩⟩
  rw [List.getLast?_cons_cons]
  exact h.last

theorem Finds.opened (hn : n ∉ visited) {found : Option (List Node) × List Node}
    (h : g.Finds target (g.dependencies n) (n :: visited) found) :
    g.Finds target [n] visited (found.1.map (n :: ·), found.2) := by
  rcases found with ⟨_ | path, visited'⟩
  · obtain ⟨hsub, hchildren, htarget, hclosed⟩ := h
    obtain ⟨hmem, hsub'⟩ := List.cons_subset.mp hsub
    refine ⟨hsub', by simpa using hmem, htarget, ?_⟩
    intro m hm hnew
    by_cases heq : m = n
    · subst heq
      exact fun k hk => hchildren hk
    · exact hclosed m hm (by simp [heq, hnew])
  · obtain ⟨m, hm, hpath, haway⟩ := h
    have hn' : n ∉ path := fun hmem => haway n hmem List.mem_cons_self
    refine ⟨n, List.mem_singleton_self n, hpath.cons hm hn', List.forall_mem_cons.mpr ⟨hn, ?_⟩⟩
    intro k hk hmem
    exact haway k hk (List.mem_cons_of_mem n hmem)

/-! ### The search -/

/-- One step after another of a search, until a path is found. -/
def searchEach (search : List Node → Node → Option (List Node) × List Node)
    (found : Option (List Node) × List Node) (l : List Node) : Option (List Node) × List Node :=
  l.foldl (fun (path, visited) child =>
    match path with
    | some path => (some path, visited)
    | none => search visited child) found

private theorem searchEach_some {search : List Node → Node → Option (List Node) × List Node} :
    searchEach search (some path, visited) l = (some path, visited) := by
  induction l with
  | nil => rfl
  | cons n l ih => exact ih

private theorem finds_searchEach {search : List Node → Node → Option (List Node) × List Node}
    (htarget : target ∉ visited) (hsearch : ∀ visited', visited ⊆ visited' → target ∉ visited' →
      ∀ n ∈ l, g.Finds target [n] visited' (search visited' n)) :
    g.Finds target l visited (searchEach search (none, visited) l) := by
  induction l generalizing visited with
  | nil => exact ⟨List.Subset.refl _, List.nil_subset _, htarget, fun n hn hnew => absurd hn hnew⟩
  | cons n l ih =>
      have hfirst := hsearch visited (List.Subset.refl _) htarget n List.mem_cons_self
      have hstep : searchEach search (none, visited) (n :: l) =
          searchEach search (search visited n) l := rfl
      rw [hstep]
      generalize search visited n = found at hfirst ⊢
      rcases found with ⟨_ | path, visited'⟩
      · have ⟨hsub, _, htarget', _⟩ := hfirst
        apply hfirst.cons_none
        apply ih htarget'
        intro visited'' hsub' htarget'' m hm
        exact hsearch visited'' (List.Subset.trans hsub hsub') htarget'' m
          (List.mem_cons_of_mem n hm)
      · rw [searchEach_some]
        exact hfirst.cons_some l visited'

private theorem pathFrom_succ (g : ImportGraph) (target : Node) (fuel : Nat) (visited : List Node)
    (n : Node) : g.pathFrom target (fuel + 1) visited n =
      if n = target then (some [n], visited)
      else if visited.contains n then (none, visited)
      else
        let found :=
          searchEach (g.pathFrom target fuel) (none, n :: visited) (g.dependencies n)
        (found.1.map (n :: ·), found.2) := rfl

/-- Each node that is opened is one that was not visited, so the bound on the length of the path is
never met before the search is over. -/
theorem finds_pathFrom (hclosed : ∀ n ∈ g.nodes, ∀ m ∈ g.dependencies n, m ∈ g.nodes)
    (hfuel : g.unvisited visited < fuel) (hn : n ∈ g.nodes) (htarget : target ∉ visited) :
    g.Finds target [n] visited (g.pathFrom target fuel visited n) := by
  induction fuel generalizing visited n with
  | zero => exact absurd hfuel (Nat.not_lt_zero _)
  | succ fuel ih =>
      rw [pathFrom_succ]
      split
      · rename_i heq
        refine ⟨n, List.mem_singleton_self n, ⟨rfl, by simp [heq], by simp, by simp⟩, ?_⟩
        simpa [heq] using htarget
      · rename_i hne
        split
        · rename_i hvisited
          rw [List.contains_iff_mem] at hvisited
          exact ⟨List.Subset.refl _, by simpa using hvisited, htarget,
            fun m hm hnew => absurd hm hnew⟩
        · rename_i hvisited
          rw [List.contains_iff_mem] at hvisited
          have hlt := unvisited_cons_lt hn hvisited
          apply Finds.opened hvisited
          apply finds_searchEach
          · simp [Ne.symm hne, htarget]
          · intro visited' hsub htarget' m hm
            have hle := unvisited_le (g := g) hsub
            exact ih (by omega) (hclosed n hn m hm) htarget'

/-! ### Paths in the graph of a solution -/

variable {s : Solution} {rootName name : String}

theorem finds_ofSolution (s : Solution) (rootName : String) (target : Node) :
    (ofSolution s rootName).Finds target [none] []
      ((ofSolution s rootName).pathFrom target ((ofSolution s rootName).size + 2) [] none) := by
  have hlists := lists_dependencies s rootName
  have hfuel : (ofSolution s rootName).unvisited [] < (ofSolution s rootName).size + 2 := by
    have hlength := length_nodes (ofSolution s rootName)
    have hfilter := List.length_filter_le (fun n => decide (n ∉ [])) (ofSolution s rootName).nodes
    rw [hlength] at hfilter
    exact Nat.lt_succ_of_le hfilter
  refine finds_pathFrom (fun n hn m hm => ?_) hfuel List.mem_cons_self List.not_mem_nil
  exact hlists.mem_nodes n hn m ((hlists.mem_iff n hn m).mp hm)

theorem IsClosed.mem_of_reflTransGen (h : (ofSolution s rootName).IsClosed [] visited)
    (hn : n ∈ visited) (hreach : Relation.ReflTransGen s.Links n m) : m ∈ visited := by
  induction hreach with
  | refl => exact hn
  | tail _ hlink ih =>
      apply h _ ih List.not_mem_nil
      exact mem_dependencies_ofSolution.mpr ⟨hlink.target, hlink.imports⟩

theorem IsPath.reflTransGen (h : (ofSolution s rootName).IsPath none target path) :
    Relation.ReflTransGen s.Links none target := by
  obtain ⟨rest, rfl⟩ := List.head?_eq_some_iff.mp h.head
  have hchain := ((lists_dependencies s rootName).isChain_iff List.mem_cons_self).mp h.chain
  refine List.relationReflTransGen_of_exists_isChain_cons rest hchain ?_
  exact List.getLast_of_getLast?_eq_some h.last

theorem isPath_of_path?_eq_some (h : (ofSolution s rootName).path? name = some path) :
    (ofSolution s rootName).IsPath none (some ⟨name⟩) path := by
  obtain ⟨n, hnode, hpath⟩ := Option.bind_eq_some_iff.mp h
  obtain ⟨rfl, -⟩ := node?_ofSolution_eq_some_iff.mp hnode
  have hfinds := finds_ofSolution s rootName (some ⟨name⟩)
  rcases hresult : (ofSolution s rootName).pathFrom (some ⟨name⟩)
    ((ofSolution s rootName).size + 2) [] none with ⟨_ | found, visited⟩
  · rw [hresult] at hpath
    cases hpath
  · rw [hresult] at hpath hfinds
    cases hpath
    obtain ⟨n, hn, hpath, -⟩ := hfinds
    rwa [List.mem_singleton.mp hn] at hpath

theorem exists_path?_eq_some_iff : (∃ path, (ofSolution s rootName).path? name = some path) ↔
    Relation.ReflTransGen s.Links none (some ⟨name⟩) := by
  constructor
  · rintro ⟨path, hpath⟩
    exact (isPath_of_path?_eq_some hpath).reflTransGen
  · intro hreach
    have hnode := Solution.hasNode_of_reflTransGen hreach
    rw [path?, node?_ofSolution_eq_some_iff.mpr ⟨rfl, hnode⟩, Option.bind_some]
    have hfinds := finds_ofSolution s rootName (some ⟨name⟩)
    rcases hresult : (ofSolution s rootName).pathFrom (some ⟨name⟩)
      ((ofSolution s rootName).size + 2) [] none with ⟨_ | found, visited⟩
    · rw [hresult] at hfinds
      obtain ⟨-, hstart, hmissed, hclosed⟩ := hfinds
      exact absurd (hclosed.mem_of_reflTransGen (hstart List.mem_cons_self) hreach) hmissed
    · exact ⟨found, rfl⟩

end DepSolver.ImportGraph
