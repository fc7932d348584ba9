import DepSolver.Proofs.Search.State

/-!
The invariant of a search that ties its state to what is demanded. Whatever the state holds is
demanded by the versions selected in it, and whatever these demand is in the state or still to be
met.
-/

namespace DepSolver.Search

variable {source : VersionSource} {p : Parameters} {s s' : SearchState} {d : Demand}
  {root : ProjectRoot} {version : Version} {imports : SortedSet String} {work more : List Demand}

/-- An import is recorded in a state, or a demand for it is waiting. -/
def IsMet (source : VersionSource) (s : SearchState) (work : List Demand)
    (importer : Option ProjectRoot) (path : String) : Prop :=
  ∃ target, source.rootOf path = .ok target ∧
    ((path ∈ s.needed target ∧ s.imports.Relates importer target) ∨
      ∃ d ∈ work, d.importer = importer ∧ d.target = target ∧ path ∈ d.packages)

/-- A demand that a choice of versions gives rise to. -/
structure IsDue (source : VersionSource) (p : Parameters) (σ : Assignment) (d : Demand) :
    Prop where
  nonempty : ∃ path, path ∈ d.packages
  demanded : ∀ path ∈ d.packages, Demanded source p σ d.importer path
  target : ∀ path ∈ d.packages, source.rootOf path = .ok d.target

/-- What holds of a selection. -/
structure IsExploredSelection (source : VersionSource) (p : Parameters) (s : SearchState)
    (work : List Demand) (root : ProjectRoot) (x : Selection) : Prop where
  versions : ∃ listed, source.versionsOf root = .ok listed
  tree : source.treeAt root x.version = .ok x.tree
  manifest : source.manifestAt root x.version = .ok x.manifest
  required : root ∈ s.required.keys
  packages : ∀ path, path ∈ x.packages ↔ x.tree.Reaches p.ignored false (s.needed root) path
  usable : ∀ path ∈ x.packages, x.tree.IsUsable path
  met : ∀ path, x.tree.LeadsOut p.ignored false (s.needed root) path →
    p.LooksUp source (some root) path → IsMet source s work (some root) path

/-- What holds of a state at every moment of a search, with the demands that are waiting. -/
structure IsExplored (source : VersionSource) (p : Parameters) (s : SearchState)
    (work : List Demand) : Prop where
  selection : ∀ root x, s.selected.get? root = some x →
    IsExploredSelection source p s work root x
  due : ∀ d ∈ work, IsDue source p s.version? d
  required : ∀ root, s.needed root ⊆ DemandedOf source p s.version? root
  imports : ∀ importer target, s.imports.Relates importer target →
    ∃ path, Demanded source p s.version? importer path ∧ source.rootOf path = .ok target
  requiredProper : s.required.IsProper
  importsProper : s.imports.IsProper
  rootMet : ∀ path, p.RootImports path → p.LooksUp source none path →
    IsMet source s work none path

/-! ### Demands that are met -/

theorem IsMet.record {importer : Option ProjectRoot} {path : String}
    (h : IsMet source s (d :: work) importer path) (more : List Demand) :
    IsMet source (s.record d) (work ++ more) importer path := by
  obtain ⟨target, hroot, ⟨hneeded, himports⟩ | ⟨d', hmem, rfl, rfl, hpath⟩⟩ := h
  · exact ⟨target, hroot, .inl ⟨SearchState.relates_record_required.mpr (.inl hneeded),
      SearchState.relates_record_imports.mpr (.inl himports)⟩⟩
  · refine ⟨d'.target, hroot, ?_⟩
    rcases List.mem_cons.mp hmem with rfl | hmem
    · exact .inl ⟨SearchState.relates_record_required.mpr (.inr ⟨rfl, hpath⟩),
        SearchState.relates_record_imports.mpr (.inr ⟨rfl, rfl⟩)⟩
    · exact .inr ⟨d', List.mem_append_left _ hmem, rfl, rfl, hpath⟩

theorem IsWorkOf.isMet {importer : Option ProjectRoot} {imports : List String} {path : String}
    (h : IsWorkOf source p importer imports more) (hpath : path ∈ imports)
    (hlook : p.LooksUp source importer path) (s : SearchState) (work : List Demand) :
    IsMet source s (work ++ more) importer path := by
  obtain ⟨d, hd, hroot, hmem⟩ := h.complete path hpath hlook
  exact ⟨d.target, hroot, .inr ⟨d, List.mem_append_right _ hd, h.importer_eq d hd, rfl, hmem⟩⟩

theorem IsWorkOf.eq_nil {importer : Option ProjectRoot}
    (h : IsWorkOf source p importer (SortedSet.toList .empty) work) : work = [] :=
  List.eq_nil_of_length_eq_zero (Nat.le_zero.mp h.length_le)

theorem IsWorkOf.isDue {σ : Assignment} {tree : PackageTree} {seeds : Set String}
    (h : IsWorkOf source p (some root) imports.toList work)
    (hseeds : seeds ⊆ DemandedOf source p σ root)
    (hversion : σ root = some version) (htree : source.treeAt root version = .ok tree)
    (himports : ∀ path ∈ imports, tree.LeadsOut p.ignored false seeds path) :
    ∀ d ∈ work, IsDue source p σ d := by
  intro d hd
  refine ⟨h.nonempty d hd, ?_, ?_⟩
  · intro path hpath
    obtain ⟨hmem, hlook, -⟩ := h.sound d hd path hpath
    rw [h.importer_eq d hd]
    exact .of_leadsOut hseeds hversion htree (himports path hmem) hlook
  · intro path hpath
    exact (h.sound d hd path hpath).2.2

/-! ### Recording a demand -/

theorem IsExplored.mem_demandedOf (h : IsExplored source p s (d :: work)) :
    ∀ path ∈ d.packages, path ∈ DemandedOf source p s.version? d.target := by
  have hdue := h.due d List.mem_cons_self
  intro path hpath
  exact ⟨d.importer, hdue.demanded path hpath, hdue.target path hpath⟩

theorem IsExplored.needed_record_subset (h : IsExplored source p s (d :: work))
    (root : ProjectRoot) :
    (s.record d).needed root ⊆ DemandedOf source p s.version? root := by
  intro path hpath
  rcases SearchState.relates_record_required.mp hpath with hold | ⟨rfl, hnew⟩
  · exact h.required root hold
  · exact h.mem_demandedOf path hnew

theorem IsExplored.imports_record (h : IsExplored source p s (d :: work))
    {importer : Option ProjectRoot} {target : ProjectRoot}
    (himports : (s.record d).imports.Relates importer target) :
    ∃ path, Demanded source p s.version? importer path ∧ source.rootOf path = .ok target := by
  rcases SearchState.relates_record_imports.mp himports with himports | ⟨rfl, rfl⟩
  · exact h.imports importer target himports
  · have hdue := h.due d List.mem_cons_self
    obtain ⟨path, hpath⟩ := hdue.nonempty
    exact ⟨path, hdue.demanded path hpath, hdue.target path hpath⟩

theorem IsExplored.required_record_isProper (h : IsExplored source p s (d :: work)) :
    (s.record d).required.IsProper := by
  obtain ⟨path, hpath⟩ := (h.due d List.mem_cons_self).nonempty
  exact h.requiredProper.update fun _ => ⟨path, SortedSet.mem_union.mpr (.inr hpath)⟩

theorem IsExplored.imports_record_isProper (h : IsExplored source p s (d :: work)) :
    (s.record d).imports.IsProper :=
  h.importsProper.update fun _ => ⟨d.target, SortedSet.mem_insert.mpr (.inl rfl)⟩

theorem IsExploredSelection.record {x : Selection}
    (h : IsExploredSelection source p s (d :: work) root x) (hne : root ≠ d.target)
    (more : List Demand) :
    IsExploredSelection source p (s.record d) (work ++ more) root x where
  versions := h.versions
  tree := h.tree
  manifest := h.manifest
  required := Table.mem_keys_insert.mpr (.inr h.required)
  packages := by
    rw [SearchState.needed_record_of_ne hne]
    exact h.packages
  usable := h.usable
  met path hleads hlook := by
    rw [SearchState.needed_record_of_ne hne] at hleads
    exact (h.met path hleads hlook).record more

/-! ### Meeting a demand -/

theorem IsExplored.meet_pending (h : IsExplored source p s (d :: work))
    (hnone : s.selected.get? d.target = none) : IsExplored source p (s.record d) work where
  selection root x hx := by
    have hne : root ≠ d.target := by
      rintro rfl
      rw [SearchState.record_selected, hnone] at hx
      cases hx
    simpa using (h.selection root x hx).record hne []
  due d' hd' := h.due d' (List.mem_cons_of_mem _ hd')
  required := h.needed_record_subset
  imports _ _ := h.imports_record
  requiredProper := h.required_record_isProper
  importsProper := h.imports_record_isProper
  rootMet path himport hlook := by
    simpa using (h.rootMet path himport hlook).record []

theorem reaches_needed_record {x : Selection} {path : String}
    (hpackages : ∀ path,
      path ∈ x.packages ↔ x.tree.Reaches p.ignored false (s.needed d.target) path) :
    x.tree.Reaches p.ignored false ((s.record d).needed d.target) path ↔
      x.tree.Reaches p.ignored false (s.needed d.target) path ∨
        x.tree.Reaches p.ignored false
          {seed | seed ∈ (d.packages.diff x.packages).toList} path := by
  constructor
  · intro hreaches
    obtain ⟨seed, hseed, hpath⟩ := PackageTree.reaches_iff_exists_seed.mp hreaches
    rcases SearchState.relates_record_required.mp hseed with hold | ⟨-, hnew⟩
    · exact .inl (PackageTree.reaches_iff_exists_seed.mpr ⟨seed, hold, hpath⟩)
    · by_cases hused : seed ∈ x.packages
      · have hseedReaches := (hpackages seed).mp hused
        refine .inl (hpath.trans ?_)
        rintro seed' rfl -
        exact hseedReaches
      · exact .inr (PackageTree.reaches_iff_exists_seed.mpr
          ⟨seed, SortedSet.mem_diff.mpr ⟨hnew, hused⟩, hpath⟩)
  · rintro (hold | hnew)
    · exact hold.mono fun seed hseed => SearchState.relates_record_required.mpr (.inl hseed)
    · exact hnew.mono fun seed hseed => SearchState.relates_record_required.mpr
        (.inr ⟨rfl, (SortedSet.mem_diff.mp hseed).1⟩)

theorem mem_union_internal_iff {x : Selection} {reach : Reach} {path : String}
    (hpackages : ∀ path,
      path ∈ x.packages ↔ x.tree.Reaches p.ignored false (s.needed d.target) path)
    (hreach : x.tree.reach (d.packages.diff x.packages).toList p.ignored false = .ok reach) :
    path ∈ x.packages.union reach.internal ↔
      x.tree.Reaches p.ignored false ((s.record d).needed d.target) path := by
  rw [SortedSet.mem_union, hpackages, (PackageTree.isReach_of_reach_eq_ok hreach).mem_internal,
    reaches_needed_record hpackages]

theorem isUsable_of_mem_union_internal {x : Selection} {reach : Reach} {path : String}
    (husable : ∀ path ∈ x.packages, x.tree.IsUsable path)
    (hreach : x.tree.reach (d.packages.diff x.packages).toList p.ignored false = .ok reach)
    (hpath : path ∈ x.packages.union reach.internal) : x.tree.IsUsable path := by
  have hspec := PackageTree.isReach_of_reach_eq_ok hreach
  rcases SortedSet.mem_union.mp hpath with hold | hnew
  · exact husable path hold
  · exact hspec.usable path ((hspec.mem_internal path).mp hnew)

theorem IsExploredSelection.put {x : Selection} (h : IsExploredSelection source p s work root x)
    (root' : ProjectRoot) (y : Selection) :
    IsExploredSelection source p (s.put root' y) work root x :=
  ⟨h.versions, h.tree, h.manifest, h.required, h.packages, h.usable, h.met⟩

theorem IsExploredSelection.extend {x : Selection} {reach : Reach}
    (h : IsExploredSelection source p s (d :: work) d.target x)
    (hreach : x.tree.reach (d.packages.diff x.packages).toList p.ignored false = .ok reach)
    (hmore : IsWorkOf source p (some d.target) reach.external.toList more) :
    IsExploredSelection source p (s.record d) (work ++ more) d.target
      { x with packages := x.packages.union reach.internal } := by
  refine ⟨h.versions, h.tree, h.manifest, Table.mem_keys_insert.mpr (.inl rfl),
    fun _ => mem_union_internal_iff h.packages hreach,
    fun _ => isUsable_of_mem_union_internal h.usable hreach, ?_⟩
  rintro path ⟨importer, q, hreaches, hfound, hmem, houtside⟩ hlook
  rcases (reaches_needed_record h.packages).mp hreaches with hold | hnew
  · exact (h.met path ⟨importer, q, hold, hfound, hmem, houtside⟩ hlook).record more
  · have hexternal : path ∈ reach.external :=
      ((PackageTree.isReach_of_reach_eq_ok hreach).mem_external path).mpr
        ⟨importer, q, hnew, hfound, hmem, houtside⟩
    exact hmore.isMet hexternal hlook (s.record d) work

theorem IsExplored.meet_selected (h : IsExplored source p s (d :: work)) {x : Selection}
    (hmeet : s.Extends p d x s' imports)
    (hmore : IsWorkOf source p (some d.target) imports.toList more) :
    IsExplored source p s' (work ++ more) := by
  obtain ⟨hx, -, reach, hreach, rfl, rfl⟩ := hmeet
  have hselection := h.selection d.target x hx
  have hspec := PackageTree.isReach_of_reach_eq_ok hreach
  have hversion : ((s.record d).put d.target { x with
      packages := x.packages.union reach.internal }).version? = s.version? :=
    SearchState.version?_put_of_eq (s := s.record d) hx rfl
  constructor
  case selection =>
    intro root y hy
    rw [SearchState.get?_put] at hy
    split at hy
    · rename_i heq
      subst heq
      cases hy
      exact (hselection.extend hreach hmore).put _ _
    · rename_i hne
      exact ((h.selection root y hy).record hne more).put _ _
  case due =>
    rw [hversion]
    intro d' hd'
    rcases List.mem_append.mp hd' with hold | hnew
    · exact h.due d' (List.mem_cons_of_mem _ hold)
    · have hselected := SearchState.version?_of_get? hx
      refine hmore.isDue ?_ hselected hselection.tree
        (fun path hpath => (hspec.mem_external path).mp hpath) d' hnew
      intro path hpath
      exact h.mem_demandedOf path (SortedSet.mem_diff.mp hpath).1
  case required =>
    rw [hversion]
    exact h.needed_record_subset
  case imports =>
    rw [hversion]
    intro importer target himports
    exact h.imports_record himports
  case requiredProper => exact h.required_record_isProper
  case importsProper => exact h.imports_record_isProper
  case rootMet =>
    intro path himport hlook
    exact (h.rootMet path himport hlook).record more

theorem IsExplored.meet (h : IsExplored source p s (d :: work))
    (hmeet : s.meet p d = .ok (s', imports))
    (hmore : IsWorkOf source p (some d.target) imports.toList more) :
    IsExplored source p s' (work ++ more) := by
  rcases SearchState.meet_eq_ok hmeet with ⟨hnone, rfl, rfl⟩ | ⟨x, hx⟩
  · rw [hmore.eq_nil, List.append_nil]
    exact h.meet_pending hnone
  · exact h.meet_selected hx hmore

/-! ### Selecting a version -/

theorem IsMet.put {importer : Option ProjectRoot} {path : String}
    (h : IsMet source s [] importer path) (root : ProjectRoot) (x : Selection)
    (work : List Demand) : IsMet source (s.put root x) work importer path := by
  obtain ⟨target, hroot, hrecorded | ⟨d, hd, -⟩⟩ := h
  · exact ⟨target, hroot, .inl hrecorded⟩
  · cases hd

theorem IsExplored.select (h : IsExplored source p s []) {tree : PackageTree} {manifest : Manifest}
    (hpending : root ∈ s.pending) (hversions : ∃ listed, source.versionsOf root = .ok listed)
    (htree : source.treeAt root version = .ok tree)
    (hmanifest : source.manifestAt root version = .ok manifest)
    (hselect : s.select p root version tree manifest = .ok (s', imports))
    (hwork : IsWorkOf source p (some root) imports.toList work) :
    IsExplored source p s' work := by
  obtain ⟨reach, hreach, rfl, rfl⟩ := SearchState.select_eq_ok hselect
  have hspec := PackageTree.isReach_of_reach_eq_ok hreach
  rw [SearchState.setOf_mem_required] at hspec
  obtain ⟨hrequired, hnone⟩ := SearchState.mem_pending_iff.mp hpending
  have hversion := SearchState.version?_put s root root ⟨version, reach.internal, tree, manifest⟩
  rw [if_pos rfl] at hversion
  have hgrows := @SearchState.version?_put_of_eq_some s root
    ⟨version, reach.internal, tree, manifest⟩ hnone
  constructor
  case selection =>
    intro root' x hx
    rw [SearchState.get?_put] at hx
    split at hx
    · rename_i heq
      subst heq
      cases hx
      refine ⟨hversions, htree, hmanifest, hrequired, hspec.mem_internal, ?_, ?_⟩
      · intro path hpath
        exact hspec.usable path ((hspec.mem_internal path).mp hpath)
      · intro path hleads hlook
        exact hwork.isMet ((hspec.mem_external path).mpr hleads) hlook _ []
    · have hold := h.selection root' x hx
      refine ⟨hold.versions, hold.tree, hold.manifest, hold.required, hold.packages,
        hold.usable, ?_⟩
      intro path hleads hlook
      exact (hold.met path hleads hlook).put _ _ work
  case due =>
    refine hwork.isDue ?_ hversion htree fun path hpath => (hspec.mem_external path).mp hpath
    exact (h.required root).trans (DemandedOf.mono (fun _ _ => hgrows) root)
  case required =>
    intro root'
    exact (h.required root').trans (DemandedOf.mono (fun _ _ => hgrows) root')
  case imports =>
    intro importer target himports
    obtain ⟨path, hdemanded, hroot⟩ := h.imports importer target himports
    exact ⟨path, hdemanded.mono fun _ _ => hgrows, hroot⟩
  case requiredProper => exact h.requiredProper
  case importsProper => exact h.importsProper
  case rootMet =>
    intro path himport hlook
    exact (h.rootMet path himport hlook).put _ _ work

/-! ### Beginning and end -/

theorem IsExplored.start (himports : ∀ path, path ∈ imports ↔ p.RootImports path)
    (hwork : IsWorkOf source p none imports.toList work) :
    IsExplored source p .empty work where
  selection _ _ hx := by cases hx
  due d hd := by
    refine ⟨hwork.nonempty d hd, ?_, ?_⟩
    · intro path hpath
      obtain ⟨hmem, hlook, -⟩ := hwork.sound d hd path hpath
      rw [hwork.importer_eq d hd]
      exact .own ((himports path).mp hmem) hlook
    · intro path hpath
      exact (hwork.sound d hd path hpath).2.2
  required root path hpath := absurd hpath (Table.not_relates_empty root path)
  imports importer target himports := absurd himports (Table.not_relates_empty importer target)
  requiredProper := Table.isProper_empty
  importsProper := Table.isProper_empty
  rootMet path himport hlook := hwork.isMet ((himports path).mpr himport) hlook .empty []

theorem IsExplored.recorded (h : IsExplored source p s []) {importer : Option ProjectRoot}
    {path : String} (hdemanded : Demanded source p s.version? importer path) :
    ∃ target, source.rootOf path = .ok target ∧ path ∈ s.needed target ∧
      s.imports.Relates importer target := by
  have hmet : IsMet source s [] importer path := by
    induction hdemanded with
    | own himport hlook => exact h.rootMet _ himport hlook
    | @imported importer seed path root version tree _ hroot hversion htree himport hlook ih =>
        obtain ⟨target, htarget, ⟨hneeded, -⟩ | ⟨d, hd, -⟩⟩ := ih
        · obtain rfl : target = root := by simpa [hroot] using htarget.symm
          obtain ⟨x, hx, rfl⟩ := SearchState.version?_eq_some_iff.mp hversion
          have hselection := h.selection target x hx
          obtain rfl : x.tree = tree := by simpa [hselection.tree] using htree
          refine hselection.met path ?_ hlook
          exact PackageTree.leadsOut_iff_exists_seed.mpr ⟨seed, hneeded, himport⟩
        · cases hd
  obtain ⟨target, hroot, hrecorded | ⟨d, hd, -⟩⟩ := hmet
  · exact ⟨target, hroot, hrecorded⟩
  · cases hd

theorem IsExplored.needed_eq (h : IsExplored source p s []) (root : ProjectRoot) :
    s.needed root = DemandedOf source p s.version? root := by
  apply Set.Subset.antisymm (h.required root)
  rintro path ⟨importer, hdemanded, hroot⟩
  obtain ⟨target, htarget, hneeded, -⟩ := h.recorded hdemanded
  rw [hroot, Except.ok.injEq] at htarget
  rwa [htarget]

/-- When nothing is pending, every demanded import is recorded, and its project is selected. -/
theorem IsExplored.demanded_recorded (h : IsExplored source p s []) (hdone : s.pending = [])
    {importer : Option ProjectRoot} {path : String}
    (hdemanded : Demanded source p s.version? importer path) :
    ∃ target x, source.rootOf path = .ok target ∧ path ∈ s.needed target ∧
      s.imports.Relates importer target ∧ s.selected.get? target = some x := by
  obtain ⟨target, hroot, hneeded, himports⟩ := h.recorded hdemanded
  obtain ⟨x, hx⟩ := SearchState.exists_selected_of_pending_eq_nil hdone
    (Table.mem_keys_of_relates hneeded)
  exact ⟨target, x, hroot, hneeded, himports, hx⟩

end DepSolver.Search
