import DepSolver.Proofs.Search.Run

/-!
Searches that follow a choice of versions. As long as every selected version is the chosen one, and
the choice serves what it demands, no demand is in conflict: the search goes on, unless the source
fails.
-/

namespace DepSolver.Search

variable {source : VersionSource} {p : Parameters} {σ τ : Assignment}
  {s s' mid next : SearchState} {root : ProjectRoot} {version : Version} {d : Demand}
  {work work' : List Demand} {imports : SortedSet String} {n : Nat}

/-- The constraints that manifests of chosen versions place on a project that they import. -/
def DeclaredOn (source : VersionSource) (p : Parameters) (σ : Assignment) (root : ProjectRoot) :
    Set Constraint :=
  {c | ∃ importer path version manifest, Demanded source p σ (some importer) path ∧
    source.rootOf path = .ok root ∧ σ importer = some version ∧
    source.manifestAt importer version = .ok manifest ∧ manifest.constraint? root = some c}

/-- A version of a project is chosen that can be used: all demanded packages of it can be had, and
it satisfies every constraint that applies. -/
structure IsServed (source : VersionSource) (p : Parameters) (σ : Assignment) (root : ProjectRoot)
    (version : Version) : Prop where
  chosen : σ root = some version
  packages : ∃ tree seeds reach, source.treeAt root version = .ok tree ∧
    (∀ path, path ∈ seeds ↔ path ∈ DemandedOf source p σ root) ∧
    tree.reach seeds p.ignored false = .ok reach
  manifest : ∃ manifest, source.manifestAt root version = .ok manifest
  admits : p.Admits root (DeclaredOn source p σ root) version

/-- A choice of versions that serves every project of which it demands something. -/
def Serves (source : VersionSource) (p : Parameters) (σ : Assignment) : Prop :=
  ∀ root path, path ∈ DemandedOf source p σ root → ∃ version, IsServed source p σ root version

theorem Serves.of_sameInputs {q : Parameters} (hinputs : p.SameInputs q)
    (h : Serves source p σ) : Serves source q σ := by
  have hdemanded : ∀ root, DemandedOf source q σ root = DemandedOf source p σ root :=
    hinputs.demandedOf_eq
  have hdeclared : ∀ root, DeclaredOn source q σ root = DeclaredOn source p σ root := by
    intro root
    ext c
    simp only [DeclaredOn, Set.mem_ofPred_eq, hinputs.demanded_iff]
  obtain ⟨lock, toChange, changeAll, rfl⟩ := hinputs
  intro root path hpath
  rw [hdemanded] at hpath
  obtain ⟨version, hserved⟩ := h root path hpath
  refine ⟨version, hserved.chosen, ?_, hserved.manifest, ?_⟩
  · rw [hdemanded]
    exact hserved.packages
  · rw [hdeclared]
    exact hserved.admits

/-- Every selected version is the chosen one. -/
def IsWithin (s : SearchState) (σ : Assignment) : Prop :=
  ∀ root version, s.version? root = some version → σ root = some version

/-- An import that a choice of versions demands has no project. -/
def IsUnresolved (source : VersionSource) (p : Parameters) (σ : Assignment) (e : SourceError) :
    Prop :=
  ∃ importer path, Demanded source p σ importer path ∧ source.rootOf path = .error e

theorem isWithin_empty (σ : Assignment) : IsWithin .empty σ := by
  intro root version hversion
  cases hversion

theorem IsWithin.meets (h : IsWithin s σ) (hmeets : Meets source p n s work s' work') :
    IsWithin s' σ := by
  rw [IsWithin, hmeets.version?_eq]
  exact h

/-! ### Constraints -/

theorem IsAccounted.contributed_subset (h : IsAccounted s) (hwithin : IsWithin s σ)
    (hmanifest : ∀ root x, s.selected.get? root = some x →
      source.manifestAt root x.version = .ok x.manifest)
    (himports : ∀ importer target, s.imports.Relates importer target →
      ∃ path, Demanded source p σ importer path ∧ source.rootOf path = .ok target)
    (root : ProjectRoot) :
    {c | ∃ x ∈ s.contributed root, x.constraint = c} ⊆ DeclaredOn source p σ root := by
  rintro c ⟨contribution, hmem, rfl⟩
  obtain ⟨importer, hrelates, hdeclared⟩ := h.attributed root contribution hmem
  obtain ⟨x, decl, hx, hdecl, rfl⟩ := SearchState.declared?_eq_some_iff.mp hdeclared
  obtain ⟨path, hdemanded, hroot⟩ := himports (some importer) root hrelates
  have hchosen := hwithin importer x.version (SearchState.version?_of_get? hx)
  refine ⟨importer, path, x.version, x.manifest, hdemanded, hroot, hchosen, hmanifest importer x hx,
    ?_⟩
  rw [Manifest.constraint?, hdecl]
  rfl

theorem IsServed.satisfiedBy (h : IsServed source p σ root version)
    (hsub : {c | ∃ x ∈ s.contributed root, x.constraint = c} ⊆ DeclaredOn source p σ root) :
    (s.constraintOn p root).satisfiedBy version = true :=
  SearchState.satisfiedBy_constraintOn.mpr (h.admits.anti hsub)

theorem IsSound.satisfiedBy (h : IsSound source p s work) (hwithin : IsWithin s σ)
    (hserved : IsServed source p σ root version) :
    (s.constraintOn p root).satisfiedBy version = true := by
  apply hserved.satisfiedBy
  apply h.accounted.contributed_subset hwithin
  · intro root x hx
    exact (h.explored.selection root x hx).manifest
  · intro importer target himports
    obtain ⟨path, hdemanded, hroot⟩ := h.explored.imports importer target himports
    exact ⟨path, hdemanded.mono hwithin, hroot⟩

/-! ### Packages -/

theorem IsServed.exists_reach (h : IsServed source p σ root version) {tree : PackageTree}
    (htree : source.treeAt root version = .ok tree) {seeds : List String}
    (hseeds : ∀ path ∈ seeds, path ∈ DemandedOf source p σ root) :
    ∃ reach, tree.reach seeds p.ignored false = .ok reach := by
  obtain ⟨tree', all, reach, htree', hall, hreach⟩ := h.packages
  obtain rfl : tree' = tree := Except.ok.inj (htree'.symm.trans htree)
  apply PackageTree.exists_reach_eq_ok_iff.mpr
  intro path hpath
  apply PackageTree.exists_reach_eq_ok_iff.mp ⟨reach, hreach⟩
  exact hpath.mono fun seed hseed => (hall seed).mpr (hseeds seed hseed)

/-! ### Demands -/

theorem IsSound.exists_meet (h : IsSound source p s (d :: work)) (hwithin : IsWithin s σ)
    (hserves : Serves source p σ) : ∃ s' imports, s.meet p d = .ok (s', imports) := by
  have hdemanded : ∀ path ∈ d.packages, path ∈ DemandedOf source p σ d.target := fun path hpath =>
    DemandedOf.mono hwithin d.target (h.explored.mem_demandedOf path hpath)
  obtain ⟨path, hpath⟩ := (h.explored.due d List.mem_cons_self).nonempty
  obtain ⟨version, hserved⟩ := hserves d.target path (hdemanded path hpath)
  refine @SearchState.exists_meet_eq_ok s p d version ?_ ?_
  · apply hserved.satisfiedBy
    apply (h.accounted.record d).contributed_subset hwithin
    · intro root x hx
      exact (h.explored.selection root x hx).manifest
    · intro importer target himports
      obtain ⟨path, hdemanded, hroot⟩ := h.explored.imports_record himports
      exact ⟨path, hdemanded.mono hwithin, hroot⟩
  · intro x hx
    have hchosen := hwithin d.target x.version (SearchState.version?_of_get? hx)
    have hversion : x.version = version := Option.some.inj (hchosen.symm.trans hserved.chosen)
    refine ⟨hversion, hserved.exists_reach (hversion ▸ (h.explored.selection _ x hx).tree) ?_⟩
    intro path hpath
    exact hdemanded path (SortedSet.mem_diff.mp hpath).1

theorem IsSound.demanded_of_meet (h : IsSound source p s (d :: work)) (hwithin : IsWithin s σ)
    (hmeet : s.meet p d = .ok (s', imports)) {path : String} (hpath : path ∈ imports)
    (hlook : p.LooksUp source (some d.target) path) :
    Demanded source p σ (some d.target) path := by
  rcases SearchState.meet_eq_ok hmeet with ⟨-, -, rfl⟩ | ⟨x, hx, -, reach, hreach, -, rfl⟩
  · exact absurd hpath (SortedSet.not_mem_empty path)
  · have hleads := ((PackageTree.isReach_of_reach_eq_ok hreach).mem_external path).mp hpath
    have hselected := SearchState.version?_of_get? hx
    refine (Demanded.of_leadsOut ?_ hselected (h.explored.selection _ x hx).tree hleads
      hlook).mono hwithin
    intro seed hseed
    exact h.explored.mem_demandedOf seed (SortedSet.mem_diff.mp hseed).1

/-- Meeting all demands within a choice that serves them only fails where the source does. -/
theorem IsSound.outcome_meetAll (h : IsSound source p s work) (hwithin : IsWithin s σ)
    (hserves : Serves source p σ) (r : SearchRecord) :
    (∃ n next, Meets source p n s work next [] ∧
      outcome source (meetAll p s work) r = .ok (.ok next, r)) ∨
    ∃ e, IsUnresolved source p σ e ∧ outcome source (meetAll p s work) r = .error (.source e) := by
  have hspec := Search.outcome_meetAll source p s work r
  have hlimit := h.explored.outcome_meetAll_ne r
  generalize outcome source (meetAll p s work) r = o at hspec hlimit ⊢
  cases hspec with
  | met hmeets => exact .inl ⟨_, _, hmeets, rfl⟩
  | conflict hmeets hconflict =>
      obtain ⟨s', imports, hmeet⟩ := (h.meets hmeets).exists_meet (hwithin.meets hmeets) hserves
      rw [hconflict] at hmeet
      cases hmeet
  | unresolved hmeets hmeet hpath hlook hroot =>
      have hdemanded :=
        (h.meets hmeets).demanded_of_meet (hwithin.meets hmeets) hmeet hpath hlook
      exact .inr ⟨_, ⟨_, _, hdemanded, hroot⟩, rfl⟩
  | exhausted hmeets => exact absurd rfl hlimit

/-! ### Decisions -/

theorem IsWithin.put (h : IsWithin s σ) {x : Selection} (hchosen : σ root = some x.version) :
    IsWithin (s.put root x) σ := by
  intro root' version hversion
  rw [SearchState.version?_put] at hversion
  split at hversion
  · rename_i heq
    rw [heq, hchosen, hversion]
  · exact h root' version hversion

theorem IsWithin.selects (h : IsWithin s σ) (hchosen : σ root = some version)
    (hselects : Selects source p s root version next) : IsWithin next σ := by
  obtain ⟨-, -, hselect, -, hmeets⟩ := hselects
  obtain ⟨reach, -, rfl, -⟩ := SearchState.select_eq_ok hselect
  exact (h.put hchosen).meets hmeets

theorem IsSound.exists_demanded (h : IsSound source p s work) (hwithin : IsWithin s σ)
    (hpending : root ∈ s.pending) : ∃ path, path ∈ DemandedOf source p σ root := by
  obtain ⟨set, hset⟩ := Table.mem_keys_iff.mp (SearchState.mem_pending_iff.mp hpending).1
  obtain ⟨path, hneeded⟩ := h.explored.requiredProper.exists_relates hset
  exact ⟨path, DemandedOf.mono hwithin root (h.explored.required root hneeded)⟩

private theorem outcome_trySelect_of_select {tree : PackageTree} {manifest : Manifest}
    (htree : source.treeAt root version = .ok tree)
    (hmanifest : source.manifestAt root version = .ok manifest)
    (hselect : s.select p root version tree manifest = .ok (mid, imports)) (r : SearchRecord) :
    outcome source (trySelect p s root version) r =
      outcome source (demands p (some root) imports >>= fun work => meetAll p mid work) r := by
  rw [VersionSource.treeAt] at htree
  rw [VersionSource.manifestAt] at hmanifest
  rw [trySelect, outcome_bind, outcome_ask, htree]
  dsimp only
  rw [outcome_bind, outcome_ask, hmanifest]
  dsimp only
  rw [hselect]

theorem IsSound.exists_select (h : IsSound source p s []) (hwithin : IsWithin s σ)
    (hserved : IsServed source p σ root version) {tree : PackageTree}
    (htree : source.treeAt root version = .ok tree) (manifest : Manifest) :
    ∃ mid imports, s.select p root version tree manifest = .ok (mid, imports) := by
  have hneeded : ∀ path ∈ ((s.required.get? root).getD .empty).toList,
      path ∈ DemandedOf source p σ root := by
    intro path hpath
    have hmem := (Set.ext_iff.mp (SearchState.setOf_mem_required s root) path).mp hpath
    exact DemandedOf.mono hwithin root (h.explored.required root hmem)
  obtain ⟨reach, hreach⟩ := hserved.exists_reach htree hneeded
  rw [SearchState.select]
  dsimp only
  rw [hreach]
  exact ⟨_, _, rfl⟩

theorem IsSound.outcome_trySelect (h : IsSound source p s []) (hwithin : IsWithin s σ)
    (hserves : Serves source p σ) (hpending : root ∈ s.pending) {listed : List Version}
    (hversions : source.versionsOf root = .ok listed)
    (hserved : IsServed source p σ root version) (r : SearchRecord) :
    (∃ next, Selects source p s root version next ∧
      outcome source (trySelect p s root version) r = .ok (.ok next, r)) ∨
    ∃ e, IsUnresolved source p σ e ∧
      outcome source (trySelect p s root version) r = .error (.source e) := by
  obtain ⟨tree, -, -, htree, -, -⟩ := hserved.packages
  obtain ⟨manifest, hmanifest⟩ := hserved.manifest
  obtain ⟨mid, imports, hselect⟩ := h.exists_select hwithin hserved htree manifest
  rw [outcome_trySelect_of_select htree hmanifest hselect, outcome_bind]
  rcases @outcome_demands source p (some root) imports r with
    ⟨work, hok, hwork⟩ | ⟨path, hpath, e, hlook, hroot, herror⟩
  · rw [hok]
    have hmid : IsSound source p mid work :=
      ⟨h.explored.select hpending ⟨listed, hversions⟩ htree hmanifest hselect hwork,
        h.accounted.select (fun _ _ => h.explored.version?_of_relates_imports) hpending hselect,
        h.satisfied.select (h.satisfiedBy hwithin hserved) hselect⟩
    have hmidWithin : IsWithin mid σ := by
      obtain ⟨reach, -, rfl, -⟩ := SearchState.select_eq_ok hselect
      exact hwithin.put hserved.chosen
    rcases hmid.outcome_meetAll hmidWithin hserves r with ⟨n, next, hmeets, hnext⟩ | hfails
    · exact .inl ⟨next, .intro htree hmanifest hselect hwork hmeets, hnext⟩
    · exact .inr hfails
  · rw [herror]
    refine .inr ⟨e, ⟨some root, path, ?_, hroot⟩, rfl⟩
    obtain ⟨reach, hreach, -, rfl⟩ := SearchState.select_eq_ok hselect
    have hspec := PackageTree.isReach_of_reach_eq_ok hreach
    rw [SearchState.setOf_mem_required] at hspec
    refine Demanded.of_leadsOut ?_ hserved.chosen htree ((hspec.mem_external path).mp hpath) hlook
    exact (h.explored.required root).trans (DemandedOf.mono hwithin root)

theorem outcome_open?_of_mem {listed : List Version}
    (hversions : source.versionsOf root = .ok listed) (hmem : version ∈ s.candidates p root listed)
    (r : SearchRecord) :
    outcome source (open? p s root) r = .ok (.ok (s.candidates p root listed), r) := by
  have hsatisfied := Constraint.isNothing_eq_false_of_satisfiedBy
    (satisfiedBy_of_mem_candidates hmem)
  rw [open?, if_neg (by simp [hsatisfied]), outcome_bind, outcome_versions?, hversions]
  dsimp only
  cases hcandidates : s.candidates p root listed with
  | nil =>
      rw [hcandidates] at hmem
      cases hmem
  | cons first rest => rfl

end DepSolver.Search
