import DepSolver.Proofs.Search.Closure
import DepSolver.Proofs.Search.Completeness

/-!
Newest-first optimality. Without a lock, the projects of a solution are decided in an order that the
versions of the solution determine: of the projects that are demanded so far, one with the fewest
listed versions is next. Along this order the solution comes first among the valid choices: another
one agrees with it, or takes a version that is listed later where it first differs.
-/

namespace DepSolver.Search

variable {source : VersionSource} {p : Parameters} {σ τ final : Assignment}
  {s next solved : SearchState} {root : ProjectRoot} {version : Version}
  {order order' : List ProjectRoot} {limit : Nat}

/-- A project of which something is demanded and no version is chosen. -/
def IsAwaited (source : VersionSource) (p : Parameters) (σ : Assignment) (root : ProjectRoot) :
    Prop :=
  (∃ path, path ∈ DemandedOf source p σ root) ∧ σ root = none

/-- The order in which a search without a lock decides on the versions of a choice, once it has
decided on some of them: the next project is the first one that is awaited, until none is. -/
inductive IsDecisionOrder (source : VersionSource) (p : Parameters) (final : Assignment) :
    Assignment → List ProjectRoot → Prop
  | done {σ : Assignment} (hnone : ∀ root, ¬ IsAwaited source p σ root) :
      IsDecisionOrder source p final σ []
  | next {σ : Assignment} {root : ProjectRoot} {version : Version} {order : List ProjectRoot}
      (hawaited : IsAwaited source p σ root)
      (hfirst : ∀ other, IsAwaited source p σ other → (source.fewestFirst root other).isLE)
      (hversion : final root = some version)
      (hrest : IsDecisionOrder source p final (Function.update σ root (some version)) order) :
      IsDecisionOrder source p final σ (root :: order)

/-- Along an order of projects, a choice is the same as another one, or the first version in which
they differ is listed before that of the other. -/
inductive Precedes (source : VersionSource) (σ τ : Assignment) : List ProjectRoot → Prop
  | refl : Precedes source σ τ []
  | same {root : ProjectRoot} {order : List ProjectRoot} (hsame : τ root = σ root)
      (hrest : Precedes source σ τ order) : Precedes source σ τ (root :: order)
  | earlier {root : ProjectRoot} {order : List ProjectRoot} {version other : Version}
      {listed : List Version} (hversion : σ root = some version) (hother : τ root = some other)
      (hversions : source.versionsOf root = .ok listed) (hlisted : other ∈ listed)
      (hlt : listed.idxOf version < listed.idxOf other) : Precedes source σ τ (root :: order)

/-! ### The order of decisions -/

/-- The order of decisions is determined by the choice. -/
theorem IsDecisionOrder.unique (h : IsDecisionOrder source p final σ order)
    (h' : IsDecisionOrder source p final σ order') : order' = order := by
  induction h generalizing order' with
  | done hnone =>
      cases h' with
      | done => rfl
      | next hawaited => exact absurd hawaited (hnone _)
  | @next σ root version order hawaited hfirst hversion _ ih =>
      cases h' with
      | done hnone => exact absurd hawaited (hnone root)
      | @next _ root' version' _ hawaited' hfirst' hversion' hrest' =>
          have hroot : root' = root := Std.LawfulEqCmp.eq_of_compare
            (Std.OrientedCmp.isLE_antisymm (hfirst' root hawaited) (hfirst root' hawaited'))
          subst hroot
          rw [hversion, Option.some.injEq] at hversion'
          subst hversion'
          rw [ih hrest']

theorem IsSound.isAwaited_iff (h : IsSound source p s []) :
    IsAwaited source p s.version? root ↔ root ∈ s.pending := by
  rw [IsAwaited, ← h.explored.needed_eq root, SearchState.mem_pending_iff]
  refine and_congr ⟨?_, ?_⟩ Option.map_eq_none_iff
  · rintro ⟨path, hneeded⟩
    exact Table.mem_keys_of_relates hneeded
  · intro hmem
    obtain ⟨set, hset⟩ := Table.mem_keys_iff.mp hmem
    exact h.explored.requiredProper.exists_relates hset

theorem Decides.exists_version?_iff (h : Decides source p order s solved) :
    (∃ version, solved.version? root = some version) ↔
      (∃ version, s.version? root = some version) ∨ root ∈ order := by
  induction h with
  | done => simp
  | step _ _ _ _ hselects _ ih =>
      rw [ih, hselects.version?_eq, Function.update_apply, List.mem_cons, ← or_assoc]
      split <;> simp_all

theorem Selects.isWithin (h : Selects source p s root version next)
    (hnone : s.version? root = none) : IsWithin s next.version? := by
  intro other v hversion
  rw [h.version?_eq, Function.update_apply, if_neg]
  · exact hversion
  · rintro rfl
    rw [hnone] at hversion
    cases hversion

theorem IsNext.version?_eq_none (h : IsNext source p s root) : s.version? root = none :=
  Option.map_eq_none_iff.mpr (SearchState.mem_pending_iff.mp h.pending).2

theorem Decides.isWithin (h : Decides source p order s solved) : IsWithin s solved.version? := by
  induction h with
  | done => exact fun _ _ hversion => hversion
  | step hnext _ _ _ hselects _ ih =>
      intro other v hversion
      exact ih other v (hselects.isWithin hnext.version?_eq_none other v hversion)

theorem Decides.not_mem (h : Decides source p order s solved)
    (hversion : s.version? root = some version) : root ∉ order := by
  induction h generalizing version with
  | done => exact List.not_mem_nil
  | step hnext _ _ _ hselects _ ih =>
      intro hmem
      rcases List.mem_cons.mp hmem with rfl | hmem
      · rw [hnext.version?_eq_none] at hversion
        cases hversion
      · exact ih (hselects.isWithin hnext.version?_eq_none _ _ hversion) hmem

theorem Decides.nodup (h : Decides source p order s solved) : order.Nodup := by
  induction h with
  | done => exact List.nodup_nil
  | step _ _ _ _ hselects hrest ih =>
      exact List.nodup_cons.mpr ⟨hrest.not_mem hselects.version?_self, ih⟩

theorem IsSound.isDecisionOrder (h : IsSound source p s [])
    (hfree : ∀ root, p.lockedVersion? root = none) (hdecides : Decides source p order s solved) :
    IsDecisionOrder source p solved.version? s.version? order := by
  induction hdecides with
  | done hdone =>
      refine .done fun root hawaited => ?_
      rw [h.isAwaited_iff, hdone] at hawaited
      cases hawaited
  | @step order s mid solved root version _ _ _ hnext hversions hsplit _ hselects hrest ih =>
      have hmid := h.selects hnext.pending hversions
        (satisfiedBy_of_mem_candidates (mem_of_split hsplit)) hselects
      refine .next (h.isAwaited_iff.mpr hnext.pending) ?_
        (hrest.isWithin root version hselects.version?_self) ?_
      · intro other hawaited
        rw [← decisionOrder_eq_fewestFirst hfree]
        exact hnext.isLE other (h.isAwaited_iff.mp hawaited)
      · rw [← hselects.version?_eq]
        exact ih hmid

/-! ### The first valid choice -/

private theorem idxOf_lt_of_filter_eq {l before after : List Version} {keep : Version → Bool}
    {v w : Version} (h : l.filter keep = before ++ v :: after) (hkeep : keep w = true)
    (hnot : w ∉ before) (hne : w ≠ v) : l.idxOf v < l.idxOf w := by
  obtain ⟨front, back, rfl, rfl, hback⟩ := List.filter_eq_append_iff.mp h
  obtain ⟨skipped, rest, rfl, hskipped, -, -⟩ := List.filter_eq_cons_iff.mp hback
  have hfront : w ∉ front ++ skipped := by
    intro hmem
    rcases List.mem_append.mp hmem with hmem | hmem
    · exact hnot (List.mem_filter.mpr ⟨hmem, hkeep⟩)
    · exact hskipped w hmem hkeep
  rw [← List.append_assoc]
  generalize front ++ skipped = first at hfront
  have hle : (first ++ v :: rest).idxOf v ≤ first.length := by
    rw [List.idxOf_append]
    split
    · rename_i hmem
      exact (List.idxOf_lt_length_of_mem hmem).le
    · simp
  have hlt : first.length < (first ++ v :: rest).idxOf w := by
    rw [List.idxOf_append_of_notMem hfront, List.idxOf_cons_ne _ hne.symm]
    omega
  omega

theorem IsSound.precedes (h : IsSound source p s []) (hwithin : IsWithin s τ)
    (hvalid : IsValid source p τ) (hfree : ∀ root, p.lockedVersion? root = none)
    (hdecides : Decides source p order s solved) : Precedes source solved.version? τ order := by
  induction hdecides with
  | done => exact .refl
  | @step order s mid solved root version listed before after hnext hversions hsplit hbefore
      hselects hrest ih =>
      obtain ⟨path, hdemanded⟩ := h.exists_demanded hwithin hnext.pending
      obtain ⟨other, listed', hserved, hversions', hlisted⟩ := hvalid root path hdemanded
      obtain rfl : listed' = listed := Except.ok.inj (hversions'.symm.trans hversions)
      have hsatisfied := h.satisfiedBy hwithin hserved
      have hfinal := hrest.isWithin root version hselects.version?_self
      by_cases hsame : other = version
      · subst hsame
        refine .same (hserved.chosen.trans hfinal.symm) ?_
        exact ih (h.selects hnext.pending hversions hsatisfied hselects)
          (hwithin.selects hserved.chosen hselects)
      · have hnot : other ∉ before := by
          intro hmem
          obtain ⟨limit, hgivenUp⟩ := hbefore other hmem
          refine h.not_isGivenUp hwithin hvalid.serves hnext.pending hversions hserved ?_ hgivenUp
          intro next hnextSelects
          exact (h.selects hnext.pending hversions hsatisfied hnextSelects).outcome_explore_ne_none
            (hwithin.selects hserved.chosen hnextSelects) hvalid hfree
        rw [SearchState.candidates, hfree root] at hsplit
        exact .earlier hfinal hserved.chosen hversions hlisted
          (idxOf_lt_of_filter_eq hsplit hsatisfied hnot hsame)

/-- The solution of a search without a lock comes first among the valid choices, along the order in
which its projects were decided. -/
theorem precedes_of_run_solve (hfree : p.lock = none ∨ p.changeAll = true) {solution : Solution}
    (h : (solve p limit).run source = .ok solution) :
    ∃ order, (∀ order', IsDecisionOrder source p solution.version? (fun _ => none) order' ↔
        order' = order) ∧
      order.Nodup ∧
      (∀ root, root ∈ order ↔ ∃ project, solution.project? root = some project) ∧
      ∀ τ, IsValid source p τ → Precedes source solution.version? τ order := by
  have hunlocked := lockedVersion?_eq_none hfree
  obtain ⟨start, order, s, attempts, halong, rfl⟩ := isSolvedAlong_of_run_solve h
  have hstart : start.version? = fun _ => none := by
    funext root
    rw [SearchState.version?, halong.unselected]
    rfl
  rw [SearchState.version?_toSolution]
  have horder := halong.sound.isDecisionOrder hunlocked halong.decides
  rw [hstart] at horder
  refine ⟨order, fun order' => ⟨horder.unique, ?_⟩, halong.decides.nodup, ?_, ?_⟩
  · rintro rfl
    exact horder
  · intro root
    have hiff := @Decides.exists_version?_iff source p start s root order halong.decides
    rw [hstart] at hiff
    simpa [SearchState.version?, SearchState.project?_toSolution] using hiff.symm
  · intro τ hvalid
    refine halong.sound.precedes ?_ hvalid hunlocked halong.decides
    rw [IsWithin, hstart]
    intro root version hversion
    cases hversion

theorem precedes_chainSolution :
    ∃ order,
      (∀ order', IsDecisionOrder chainSource (chainParameters ⟨"a.io"⟩ "main")
        chainSolution.version? (fun _ => none) order' ↔ order' = order) ∧
      order.Nodup ∧
      (∀ root, root ∈ order ↔ ∃ project, chainSolution.project? root = some project) ∧
      ∀ τ, IsValid chainSource (chainParameters ⟨"a.io"⟩ "main") τ →
        Precedes chainSource chainSolution.version? τ order :=
  precedes_of_run_solve (.inl rfl)
    (show (solve (chainParameters ⟨"a.io"⟩ "main") 2).run chainSource = .ok chainSolution by
      decide +kernel)

end DepSolver.Search
