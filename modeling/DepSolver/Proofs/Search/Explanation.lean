import DepSolver.Proofs.Search.Closure
import DepSolver.Proofs.Search.Occurrence
import DepSolver.Proofs.Solution.Path

/-!
Explanations of a solution. Whatever a search still needs was demanded along imports that start at
the solved project, and a state that it goes back to has only the imports of the decisions that
still stand. So no project of a solution is an orphan, and a path of imports explains each of them.
-/

namespace DepSolver

/-- A chain of recorded imports from the solved project to another one. -/
structure Solution.Explains (s : Solution) (root : ProjectRoot) (path : List (Option ProjectRoot)) :
    Prop where
  head : path.head? = some none
  last : path.getLast? = some (some root)
  chain : path.IsChain fun n m => ∃ target, m = some target ∧ target ∈ s.importsOf n
  nodup : path.Nodup

theorem ImportGraph.IsPath.explains {s : Solution} {rootName : String} {root : ProjectRoot}
    {path : List (Option ProjectRoot)} (h : (ofSolution s rootName).IsPath none (some root) path) :
    s.Explains root path := by
  refine ⟨h.head, h.last, ?_, h.nodup⟩
  apply h.chain.imp
  intro n m hm
  exact (mem_dependencies_ofSolution.mp hm).2

namespace SearchState

variable {s : SearchState} {n m : Option ProjectRoot} {d : Demand} {root : ProjectRoot}

def Records (s : SearchState) (n m : Option ProjectRoot) : Prop :=
  ∃ root, m = some root ∧ s.imports.Relates n root

/-- The imports that a state has recorded lead from the solved project to a node. -/
def Attains (s : SearchState) (n : Option ProjectRoot) : Prop :=
  Relation.ReflTransGen s.Records none n

theorem Attains.record (h : s.Attains n) : (s.record d).Attains n := by
  refine Relation.ReflTransGen.mono ?_ _ _ h
  rintro a b ⟨root, rfl, hrelates⟩
  exact ⟨root, rfl, relates_record_imports.mpr (.inl hrelates)⟩

theorem Attains.record_target (h : s.Attains d.importer) : (s.record d).Attains (some d.target) :=
  Relation.ReflTransGen.tail h.record ⟨d.target, rfl, relates_record_imports.mpr (.inr ⟨rfl, rfl⟩)⟩

theorem mem_keys_record_required :
    root ∈ (s.record d).required.keys ↔ root = d.target ∨ root ∈ s.required.keys :=
  Table.mem_keys_insert

private theorem hasNode_toSolution (p : Parameters) (attempts : Nat) (hdone : s.pending = [])
    (hroot : root ∈ s.required.keys) : (s.toSolution p attempts).HasNode (some root) := by
  obtain ⟨x, hx⟩ := exists_selected_of_pending_eq_nil hdone hroot
  rw [Solution.hasNode_some_iff, project?_toSolution, hx]
  exact ⟨_, rfl⟩

end SearchState

namespace Search

variable {replies : Replies} {p : Parameters} {s s' : SearchState} {d : Demand}
  {root : ProjectRoot} {work more : List Demand}

/-- Imports lead from the solved project to all that is needed and to the importers of all waiting
demands. What is imported or selected is needed. -/
structure IsConnected (s : SearchState) (work : List Demand) : Prop where
  needed : ∀ root ∈ s.required.keys, s.Attains (some root)
  waiting : ∀ d ∈ work, s.Attains d.importer
  imported : ∀ n root, s.imports.Relates n root → root ∈ s.required.keys
  selected : ∀ root x, s.selected.get? root = some x → root ∈ s.required.keys

private theorem isConnected_empty (hwork : ∀ d ∈ work, d.importer = none) :
    IsConnected .empty work where
  needed _ hroot := by cases hroot
  waiting d hd := by
    rw [hwork d hd]
    exact .refl
  imported n root hrelates := absurd hrelates (Table.not_relates_empty n root)
  selected _ _ hx := by cases hx

theorem IsConnected.record (h : IsConnected s (d :: work))
    (hmore : ∀ d' ∈ more, d'.importer = some d.target) :
    IsConnected (s.record d) (work ++ more) := by
  have htarget : (s.record d).Attains (some d.target) :=
    (h.waiting d List.mem_cons_self).record_target
  constructor
  case needed =>
    intro root hroot
    rcases SearchState.mem_keys_record_required.mp hroot with rfl | hold
    · exact htarget
    · exact (h.needed root hold).record
  case waiting =>
    intro d' hd'
    rcases List.mem_append.mp hd' with hold | hnew
    · exact (h.waiting d' (List.mem_cons_of_mem d hold)).record
    · rw [hmore d' hnew]
      exact htarget
  case imported =>
    intro n root hrelates
    rw [SearchState.mem_keys_record_required]
    rcases SearchState.relates_record_imports.mp hrelates with hold | ⟨-, heq⟩
    · exact .inr (h.imported n root hold)
    · exact .inl heq
  case selected =>
    intro root x hx
    exact SearchState.mem_keys_record_required.mpr (.inr (h.selected root x hx))

theorem IsConnected.put (h : IsConnected s work) (hroot : root ∈ s.required.keys) (x : Selection) :
    IsConnected (s.put root x) work := by
  refine ⟨h.needed, h.waiting, h.imported, ?_⟩
  intro root' y hy
  rw [SearchState.get?_put] at hy
  split at hy
  · rename_i heq
    rwa [heq]
  · exact h.selected root' y hy

theorem Occurs.isConnected (h : Occurs replies p s work) : IsConnected s work := by
  induction h with
  | start _ hwork => exact isConnected_empty hwork.importer_eq
  | meet _ hmeet hmore ih =>
      have hrecord := ih.record hmore.importer_eq
      rcases SearchState.meet_eq_ok hmeet with ⟨-, rfl, -⟩ | ⟨x, hx, -, reach, -, rfl, -⟩
      · exact hrecord
      · exact hrecord.put (SearchState.mem_keys_record_required.mpr (.inl rfl)) _
  | @select _ _ root version _ tree manifest _ _ _ hpending _ _ _ _ hselect hwork ih =>
      obtain ⟨hroot, -⟩ := SearchState.mem_pending_iff.mp hpending
      obtain ⟨reach, -, rfl, -⟩ := SearchState.select_eq_ok hselect
      have hput := ih.put hroot ⟨version, reach.internal, tree, manifest⟩
      refine ⟨hput.needed, ?_, hput.imported, hput.selected⟩
      intro d hd
      rw [hwork.importer_eq d hd]
      exact hput.needed root hroot

/-! ### Projects of a solution -/

variable {attempts limit : Nat} {t : List Exchange} {solution : Solution}

theorem IsConnected.reflTransGen_links (h : IsConnected s []) (hdone : s.pending = [])
    {n : Option ProjectRoot} (hn : s.Attains n) :
    Relation.ReflTransGen (s.toSolution p attempts).Links none n := by
  induction hn with
  | refl => exact .refl
  | @tail n m _ hrecords ih =>
      obtain ⟨root, rfl, hrelates⟩ := hrecords
      apply ih.tail
      constructor
      case source => exact Solution.hasNode_of_reflTransGen ih
      case target => exact SearchState.hasNode_toSolution p attempts hdone (h.imported n root hrelates)
      case imports => exact ⟨root, rfl, SearchState.mem_importsOf_toSolution.mpr hrelates⟩

theorem reflTransGen_links_of_yields (h : (solve p limit).Yields t (.ok solution))
    (hproject : ∃ project, solution.project? root = some project) :
    Relation.ReflTransGen solution.Links none (some root) := by
  obtain ⟨-, s, attempts, hoccurs, hdone, rfl⟩ := isResult_of_yields h
  have hconnected := hoccurs.isConnected
  obtain ⟨project, hproject⟩ := hproject
  rw [SearchState.project?_toSolution] at hproject
  obtain ⟨x, hx, -⟩ := Option.map_eq_some_iff.mp hproject
  have hneeded := hconnected.needed root (hconnected.selected root x hx)
  exact hconnected.reflTransGen_links hdone hneeded

/-- Just the projects of a solution are found in its graph, and the path to a project explains it.
The source is arbitrary, and the projects may import each other in circles. -/
theorem explains_of_yields (h : (solve p limit).Yields t (.ok solution)) (rootName name : String) :
    ((∃ path, (ImportGraph.ofSolution solution rootName).path? name = some path) ↔
      ∃ project, solution.project? ⟨name⟩ = some project) ∧
    ∀ path, (ImportGraph.ofSolution solution rootName).path? name = some path →
      solution.Explains ⟨name⟩ path := by
  constructor
  · rw [ImportGraph.exists_path?_eq_some_iff]
    constructor
    · intro hreach
      exact Solution.hasNode_some_iff.mp (Solution.hasNode_of_reflTransGen hreach)
    · exact reflTransGen_links_of_yields h
  · intro path hpath
    exact (ImportGraph.isPath_of_path?_eq_some hpath).explains

/-! ### Two projects that import each other -/

def circularSource : MemorySource :=
  (MemorySource.empty.addPackageRelease ⟨"a.io"⟩ (.branch "main" none) ["b.io"] .empty)
    |>.addPackageRelease ⟨"b.io"⟩ (.branch "main" none) ["a.io"] .empty

def circularParameters : Parameters :=
  .ofTree (MemorySource.singlePackageTree ⟨"root.io"⟩ ["a.io"]) .empty

def circularSolution : Solution where
  projects := .ofList
    [(⟨"a.io"⟩, .ofPackages ⟨"a.io"⟩ (.branch "main" none) ["."]),
      (⟨"b.io"⟩, .ofPackages ⟨"b.io"⟩ (.branch "main" none) ["."])]
  imports := .ofList [(none, .ofList [⟨"a.io"⟩]), (some ⟨"a.io"⟩, .ofList [⟨"b.io"⟩]),
    (some ⟨"b.io"⟩, .ofList [⟨"a.io"⟩])]
  inputsDigest := circularParameters.inputsDigest
  attempts := 2

theorem explains_circularSolution :
    ∃ t, (solve circularParameters 2).Yields t (.ok circularSolution) ∧
      ((∃ path, (ImportGraph.ofSolution circularSolution "root.io").path? "b.io" = some path) ↔
        ∃ project, circularSolution.project? ⟨"b.io"⟩ = some project) ∧
      ∀ path, (ImportGraph.ofSolution circularSolution "root.io").path? "b.io" = some path →
        circularSolution.Explains ⟨"b.io"⟩ path := by
  obtain ⟨t, hyields, -⟩ := (solve circularParameters 2).exists_yields_run circularSource.answer
  have hrun : (solve circularParameters 2).run circularSource.answer = .ok circularSolution := by
    decide +kernel
  rw [hrun] at hyields
  exact ⟨t, hyields, explains_of_yields hyields "root.io" "b.io"⟩

end Search

end DepSolver
