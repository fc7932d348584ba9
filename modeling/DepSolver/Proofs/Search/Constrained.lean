import DepSolver.Proofs.Search.Explored

/-!
The invariant of a search that ties its state to constraints. What manifests contributed is what the
recorded importers declare, and every version that is selected satisfies all of it.
-/

namespace DepSolver.Search

variable {source : VersionSource} {p : Parameters} {s s' : SearchState} {d : Demand}
  {root importer target : ProjectRoot} {version : Version} {imports : SortedSet String}
  {work : List Demand} {c : Contribution} {x y : Selection}

/-- What was contributed is declared by recorded importers, and what these declare was contributed,
at least by an importer of the same name and version. -/
structure IsAccounted (s : SearchState) : Prop where
  attributed : ∀ root, ∀ c ∈ s.contributed root, ∃ importer,
    s.imports.Relates (some importer) root ∧ s.declared? importer root = some c
  collected : ∀ importer root c, s.imports.Relates (some importer) root →
    s.declared? importer root = some c → ∃ c' ∈ s.contributed root, c'.origin = c.origin

/-- Every selected version satisfies the constraint on its project. -/
def IsSatisfied (p : Parameters) (s : SearchState) : Prop :=
  ∀ root x, s.selected.get? root = some x → (s.constraintOn p root).satisfiedBy x.version = true

theorem IsAccounted.empty : IsAccounted .empty where
  attributed root c hc := by cases hc
  collected importer root c himports := absurd himports (Table.not_relates_empty _ root)

theorem IsSatisfied.empty (p : Parameters) : IsSatisfied p .empty := by
  intro root x hx
  cases hx

/-! ### Declarations -/

private theorem declared?_put_of_eq (hx : s.selected.get? root = some x) (hversion :
    y.version = x.version)
    (hmanifest : y.manifest = x.manifest) (importer target : ProjectRoot) :
    (s.put root y).declared? importer target = s.declared? importer target := by
  rw [SearchState.declared?, SearchState.declared?, SearchState.get?_put]
  split
  · rename_i heq
    subst heq
    rw [hx]
    dsimp only [Option.bind_eq_bind, Option.bind_some]
    rw [hversion, hmanifest]
  · rfl

private theorem declared?_put_of_ne (hne : importer ≠ root) (x : Selection) (target : ProjectRoot) :
    (s.put root x).declared? importer target = s.declared? importer target := by
  rw [SearchState.declared?, SearchState.declared?, SearchState.get?_put, if_neg hne]

theorem contributed_record_of_ne (hne : root ≠ d.target) :
    (s.record d).contributed root = s.contributed root := by
  rw [SearchState.contributed_record]
  split
  · exact if_neg fun h => hne h.1
  · rfl

theorem constraintOn_congr (h : s'.contributed root = s.contributed root) :
    s'.constraintOn p root = s.constraintOn p root := by
  rw [SearchState.contributed, SearchState.contributed] at h
  rw [SearchState.constraintOn, SearchState.constraintOn, SearchState.contributionsTo,
    SearchState.contributionsTo, h]

/-! ### Recording and selecting -/

theorem IsAccounted.record (h : IsAccounted s) (d : Demand) : IsAccounted (s.record d) where
  attributed root c hc := by
    rcases SearchState.mem_contributed_record hc with hold | ⟨rfl, importer, himporter, hdeclared⟩
    · obtain ⟨importer, himports, hdeclared⟩ := h.attributed root c hold
      exact ⟨importer, SearchState.relates_record_imports.mpr (.inl himports), hdeclared⟩
    · exact ⟨importer, SearchState.relates_record_imports.mpr (.inr ⟨himporter.symm, rfl⟩),
        hdeclared⟩
  collected importer root c himports hdeclared := by
    rcases SearchState.relates_record_imports.mp himports with hold | ⟨himporter, rfl⟩
    · obtain ⟨c', hc', horigin⟩ := h.collected importer root c hold hdeclared
      exact ⟨c', SearchState.contributed_subset_record hc', horigin⟩
    · exact SearchState.exists_origin_of_record himporter.symm hdeclared

theorem IsAccounted.put (h : IsAccounted s) (root : ProjectRoot) (x : Selection)
    (hdeclared : ∀ importer target, s.imports.Relates (some importer) target →
      (s.put root x).declared? importer target = s.declared? importer target) :
    IsAccounted (s.put root x) where
  attributed target c hc := by
    obtain ⟨importer, himports, hc⟩ := h.attributed target c hc
    exact ⟨importer, himports, (hdeclared importer target himports).trans hc⟩
  collected importer target c himports hc := by
    rw [hdeclared importer target himports] at hc
    exact h.collected importer target c himports hc

theorem IsAccounted.meet (h : IsAccounted s) (hmeet : s.meet p d = .ok (s', imports)) :
    IsAccounted s' := by
  rcases SearchState.meet_eq_ok hmeet with ⟨-, rfl, -⟩ | ⟨x, hx, -, reach, -, rfl, -⟩
  · exact h.record d
  · apply (h.record d).put
    intro importer target _
    exact declared?_put_of_eq (s := s.record d)
      (y := { x with packages := x.packages.union reach.internal }) hx rfl rfl importer target

theorem IsSatisfied.meet (h : IsSatisfied p s) (hmeet : s.meet p d = .ok (s', imports)) :
    IsSatisfied p s' := by
  have hother : ∀ root x, s.selected.get? root = some x → root ≠ d.target →
      ((s.record d).constraintOn p root).satisfiedBy x.version = true := by
    intro root x hx hne
    rw [constraintOn_congr (contributed_record_of_ne hne)]
    exact h root x hx
  rcases SearchState.meet_eq_ok hmeet with ⟨hnone, rfl, -⟩ | ⟨x, hx, hsatisfied, reach, -, rfl, -⟩
  · intro root y hy
    apply hother root y hy
    rintro rfl
    rw [SearchState.record_selected, hnone] at hy
    cases hy
  · intro root y hy
    rw [SearchState.get?_put] at hy
    split at hy
    · rename_i heq
      subst heq
      cases hy
      exact hsatisfied
    · rename_i hne
      exact hother root y hy hne

theorem IsExplored.version?_of_relates_imports (h : IsExplored source p s work)
    (himports : s.imports.Relates (some importer) target) :
    ∃ version, s.version? importer = some version := by
  obtain ⟨path, hdemanded, -⟩ := h.imports (some importer) target himports
  cases hdemanded with
  | imported _ _ hversion => exact ⟨_, hversion⟩

theorem IsAccounted.select (h : IsAccounted s)
    (himporters : ∀ importer target, s.imports.Relates (some importer) target →
      ∃ version, s.version? importer = some version)
    (hpending : root ∈ s.pending) {tree : PackageTree} {manifest : Manifest}
    (hselect : s.select p root version tree manifest = .ok (s', imports)) : IsAccounted s' := by
  obtain ⟨reach, -, rfl, -⟩ := SearchState.select_eq_ok hselect
  apply h.put
  intro importer target himports
  refine declared?_put_of_ne ?_ _ target
  rintro rfl
  obtain ⟨version, hversion⟩ := himporters _ _ himports
  rw [SearchState.version?, (SearchState.mem_pending_iff.mp hpending).2] at hversion
  cases hversion

theorem IsSatisfied.select (h : IsSatisfied p s)
    (hsatisfied : (s.constraintOn p root).satisfiedBy version = true) {tree : PackageTree}
    {manifest : Manifest}
    (hselect : s.select p root version tree manifest = .ok (s', imports)) : IsSatisfied p s' := by
  obtain ⟨reach, -, rfl, -⟩ := SearchState.select_eq_ok hselect
  intro root' x hx
  rw [SearchState.get?_put] at hx
  split at hx
  · rename_i heq
    subst heq
    cases hx
    exact hsatisfied
  · exact h root' x hx

end DepSolver.Search
