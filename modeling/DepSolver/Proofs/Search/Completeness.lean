import DepSolver.Proofs.Search.Progress

/-!
Completeness. A search without a lock that gives up has shown that there is no choice of versions to
be found: in a state within such a choice, the chosen version of the next project is a candidate,
and the branch that selects it does not give up.
-/

namespace DepSolver.Search

variable {source : VersionSource} {p : Parameters} {σ : Assignment} {s : SearchState}
  {root : ProjectRoot} {version : Version} {r : SearchRecord} {limit : Nat}

/-- A choice of listed versions that serves every project of which it demands something. -/
def IsValid (source : VersionSource) (p : Parameters) (σ : Assignment) : Prop :=
  ∀ root path, path ∈ DemandedOf source p σ root → ∃ version listed,
    IsServed source p σ root version ∧ source.versionsOf root = .ok listed ∧ version ∈ listed

theorem IsValid.serves (h : IsValid source p σ) : Serves source p σ := by
  intro root path hpath
  obtain ⟨version, listed, hserved, -, -⟩ := h root path hpath
  exact ⟨version, hserved⟩

/-! ### Breaking off -/

/-- An error that breaks a search off before it has shown whether there is a solution. -/
def BreaksOff (e : SolveError) : Prop := (∃ e', e = .source e') ∨ e = .limitReached

private theorem breaksOff_of_outcome_trySelect {e : SolveError}
    (h : outcome source (trySelect p s root version) r = .error e) : BreaksOff e := by
  have hspec := outcome_trySelect source p s root version r
  rw [h] at hspec
  cases hspec with
  | failed => exact .inl ⟨_, rfl⟩
  | exhausted => exact .inr rfl

theorem breaksOff_of_outcome_explore {e : SolveError}
    (h : outcome source (explore p limit s) r = .error e) : BreaksOff e := by
  induction limit using Nat.strongRecOn generalizing s r with
  | ind limit ih =>
      have hspec := outcome_explore source p limit s r
      rw [h] at hspec
      generalize ho : Except.error e = o at hspec
      cases hspec with
      | finished hdone => cases ho
      | failed hpending hversions =>
          cases ho
          exact .inl ⟨_, rfl⟩
      | limited hpending =>
          cases ho
          exact .inr rfl
      | @decided limit root hnext =>
          have hdecide := outcome_decideNext source p limit s root r
          rw [← ho] at hdecide
          cases hdecide with
          | unlisted hversions => exact .inl ⟨_, rfl⟩
          | failed hversions hmem htry => exact breaksOff_of_outcome_trySelect htry
          | failedAfter hversions hmem hselects hgo => exact ih limit (Nat.lt_succ_self limit) hgo

theorem goesOn_explore (p : Parameters) (limit : Nat) (s : SearchState) (r : SearchRecord)
    (failure : SolveFailure) :
    outcome source (explore p limit s) r ≠ .error (.unsatisfiable failure) := by
  intro h
  rcases breaksOff_of_outcome_explore h with ⟨e, he⟩ | he <;> cases he

/-! ### The branch of a choice -/

private theorem mem_candidates {listed : List Version} (hfree : p.lockedVersion? root = none)
    (hmem : version ∈ listed) (hsatisfied : (s.constraintOn p root).satisfiedBy version = true) :
    version ∈ s.candidates p root listed := by
  rw [SearchState.candidates, hfree]
  exact List.mem_filter.mpr ⟨hmem, hsatisfied⟩

theorem lockedVersion?_eq_none (h : p.lock = none ∨ p.changeAll = true) (root : ProjectRoot) :
    p.lockedVersion? root = none := by
  rw [Parameters.lockedVersion?]
  rcases h with hlock | hchange
  · simp [hlock]
  · simp [hchange]

/-- A choice of versions that serves every project of which it demands something, with versions that
are candidates wherever they satisfy the constraint. -/
def IsOffered (source : VersionSource) (p : Parameters) (σ : Assignment) : Prop :=
  ∀ root path, path ∈ DemandedOf source p σ root → ∃ version listed,
    IsServed source p σ root version ∧ source.versionsOf root = .ok listed ∧
    ∀ s : SearchState, (s.constraintOn p root).satisfiedBy version = true →
      version ∈ s.candidates p root listed

theorem IsOffered.serves (h : IsOffered source p σ) : Serves source p σ := by
  intro root path hpath
  obtain ⟨version, listed, hserved, -⟩ := h root path hpath
  exact ⟨version, hserved⟩

theorem IsValid.isOffered (h : IsValid source p σ) (hfree : ∀ root, p.lockedVersion? root = none) :
    IsOffered source p σ := by
  intro root path hpath
  obtain ⟨version, listed, hserved, hversions, hlisted⟩ := h root path hpath
  exact ⟨version, listed, hserved, hversions, fun s => mem_candidates (hfree root) hlisted⟩

theorem IsSound.not_isGivenUp (h : IsSound source p s []) (hwithin : IsWithin s σ)
    (hserves : Serves source p σ) (hpending : root ∈ s.pending) {listed : List Version}
    (hversions : source.versionsOf root = .ok listed) (hserved : IsServed source p σ root version)
    (hgo : ∀ next, Selects source p s root version next → ∀ r r',
      outcome source (explore p limit next) r ≠ .ok (none, r')) :
    ¬ IsGivenUp source p (explore p limit) s root version := by
  rintro ⟨r, tried, r', htry, hnone⟩
  rcases h.outcome_trySelect hwithin hserves hpending hversions hserved r with
    ⟨next, hselects, hok⟩ | ⟨e, -, herror⟩
  · rw [hok, Except.ok.injEq, Prod.mk.injEq] at htry
    obtain ⟨r'', hgiven⟩ := hnone next htry.1.symm
    exact hgo next hselects r' r'' hgiven
  · rw [herror] at htry
    cases htry

/-- A state within a choice that is offered is not given up. -/
theorem IsSound.outcome_explore_ne_none_of_isOffered (h : IsSound source p s [])
    (hwithin : IsWithin s σ) (hoffered : IsOffered source p σ) (r r' : SearchRecord) :
    outcome source (explore p limit s) r ≠ .ok (none, r') := by
  induction limit using Nat.strongRecOn generalizing s r r' with
  | ind limit ih =>
      intro hnone
      have hspec := outcome_explore source p limit s r
      generalize outcome source (explore p limit s) r = o at hnone hspec
      cases hspec with
      | finished hdone => cases hnone
      | failed hpending hversions => cases hnone
      | limited hpending => cases hnone
      | @decided limit root hnext =>
          -- Whichever project comes next, the branch of its chosen version is among those tried,
          -- and with one decision less to go it is not given up.
          obtain ⟨path, hdemanded⟩ := h.exists_demanded hwithin hnext.pending
          obtain ⟨version, listed, hserved, hversions, hcandidate⟩ := hoffered root path hdemanded
          have hsatisfied := h.satisfiedBy hwithin hserved
          have hdecide := outcome_decideNext source p limit s root r
          rw [hnone] at hdecide
          cases hdecide with
          | givenUp hall =>
              refine h.not_isGivenUp hwithin hoffered.serves hnext.pending hversions hserved ?_
                (hall listed hversions version (hcandidate s hsatisfied))
              intro next hselects
              exact ih limit (Nat.lt_succ_self limit)
                (h.selects hnext.pending hversions hsatisfied hselects)
                (hwithin.selects hserved.chosen hselects)

theorem IsSound.outcome_explore_ne_none (h : IsSound source p s []) (hwithin : IsWithin s σ)
    (hvalid : IsValid source p σ) (hfree : ∀ root, p.lockedVersion? root = none)
    (r r' : SearchRecord) : outcome source (explore p limit s) r ≠ .ok (none, r') :=
  h.outcome_explore_ne_none_of_isOffered hwithin (hvalid.isOffered hfree) r r'

/-- A search without a lock finds the demands unsatisfiable only if no choice of versions is
valid. -/
theorem not_isValid_of_run_solve (hfree : p.lock = none ∨ p.changeAll = true)
    {failure : SolveFailure} (h : (solve p limit).run source = .error (.unsatisfiable failure))
    (σ : Assignment) : ¬ IsValid source p σ := by
  intro hvalid
  have hsearch := run_solve_eq_error_iff.mp h
  rcases @outcome_rootDemands source p .empty with ⟨imports, work, hok, himports, hwork, -⟩ |
    ⟨path, message, herror, -⟩ | ⟨path, e, -, -, -, herror⟩
  · have hstart := IsSound.start himports hwork
    rcases hstart.outcome_meetAll (isWithin_empty σ) hvalid.serves .empty with
      ⟨n, next, hmeets, hmet⟩ | ⟨e, -, herror⟩
    · have hnext := hstart.meets hmeets
      have hwithin := (isWithin_empty σ).meets hmeets
      rw [outcome_search_of_meetAll hok hmet] at hsearch
      split at hsearch
      · cases hsearch
      · rename_i r hnone
        exact hnext.outcome_explore_ne_none hwithin hvalid (lockedVersion?_eq_none hfree)
          .empty r hnone
      · rename_i e herror
        cases hsearch
        exact goesOn_explore p limit next .empty failure herror
    · rw [search, outcome_bind, hok] at hsearch
      dsimp only at hsearch
      rw [outcome_bind, herror] at hsearch
      cases hsearch
  · rw [search, outcome_bind, herror] at hsearch
    cases hsearch
  · rw [search, outcome_bind, herror] at hsearch
    cases hsearch

/-- No version of `b.io` is on the branch `next` and on that which `a.io` takes it from. -/
theorem not_isValid_chain :
    ¬ IsValid chainSource (chainParameters ⟨"b.io"⟩ "next") fun _ => some (.branch "main" none) :=
  not_isValid_of_run_solve (.inl rfl)
    (show (solve (chainParameters ⟨"b.io"⟩ "next") 2).run chainSource = .error (.unsatisfiable
      ⟨[⟨⟨"a.io"⟩, .candidatesExhausted [.branch "main" none], []⟩,
        ⟨⟨"b.io"⟩, .emptyIntersection,
          [⟨"root.io", .branch "next", none⟩, ⟨"a.io@main", .branch "main", none⟩]⟩], 1⟩) by
      decide +kernel) _

end DepSolver.Search
