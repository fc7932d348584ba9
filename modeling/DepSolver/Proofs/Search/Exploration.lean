import DepSolver.Proofs.Search.Decision

/-!
What the parts of a search come to: trying a version, trying candidates in order, deciding about a
project, and exploring a state. A search that is successful has made decisions that lead to its last
state.
-/

namespace DepSolver.Search

variable {source : VersionSource} {p : Parameters} {s next solved : SearchState}
  {root : ProjectRoot} {version : Version} {work : List Demand} {r r' : SearchRecord} {limit : Nat}

/-! ### Trying a version -/

theorem meets_of_outcome_meetAll
    (h : outcome source (meetAll p s work) r = .ok (.ok next, r')) :
    ∃ n, Meets source p n s work next [] := by
  have hspec := outcome_meetAll source p s work r
  rw [h] at hspec
  cases hspec with
  | met hmeets => exact ⟨_, hmeets⟩

/-- What trying a version comes to: it is in conflict, it is selected and its demands are met, the
source fails, or its demands are beyond the bound. -/
inductive IsTryOutcome (source : VersionSource) (p : Parameters) (s : SearchState)
    (root : ProjectRoot) (version : Version) (r : SearchRecord) :
    Except SolveError (Except ProjectConflict SearchState × SearchRecord) → Prop
  | conflict {c : ProjectConflict} : IsTryOutcome source p s root version r (.ok (.error c, r))
  | selected {next : SearchState} (hselects : Selects source p s root version next) :
      IsTryOutcome source p s root version r (.ok (.ok next, r))
  | failed {e : SourceError} : IsTryOutcome source p s root version r (.error (.source e))
  | exhausted {tree : PackageTree} {manifest : Manifest} {mid : SearchState}
      {imports : SortedSet String} {work : List Demand}
      (htree : source.treeAt root version = .ok tree)
      (hmanifest : source.manifestAt root version = .ok manifest)
      (hselect : s.select p root version tree manifest = .ok (mid, imports))
      (hwork : IsWorkOf source p (some root) imports.toList work)
      (hlimit : outcome source (meetAll p mid work) r = .error .limitReached) :
      IsTryOutcome source p s root version r (.error .limitReached)

theorem outcome_trySelect (source : VersionSource) (p : Parameters) (s : SearchState)
    (root : ProjectRoot) (version : Version) (r : SearchRecord) :
    IsTryOutcome source p s root version r (outcome source (trySelect p s root version) r) := by
  rw [trySelect, outcome_bind, outcome_ask]
  dsimp only
  split
  · exact .conflict
  · exact .failed
  · rename_i tree htree
    rw [outcome_bind, outcome_ask]
    dsimp only
    split
    · exact .conflict
    · exact .failed
    · rename_i manifest hmanifest
      split
      · exact .conflict
      · rename_i mid imports hselect
        rw [outcome_bind]
        rcases @outcome_demands source p (some root) imports r with
          ⟨work, hok, hwork⟩ | ⟨path, -, e, -, -, herror⟩
        · rw [hok]
          dsimp only
          have hspec := outcome_meetAll source p mid work r
          generalize hmeet : outcome source (meetAll p mid work) r = o at hspec
          cases hspec with
          | met hmeets => exact .selected (.intro htree hmanifest hselect hwork hmeets)
          | conflict => exact .conflict
          | unresolved => exact .failed
          | exhausted => exact .exhausted htree hmanifest hselect hwork hmeet
        · rw [herror]
          exact .failed

/-! ### Trying candidates in order -/

/-- What trying candidates in order comes to: one is found after some that were given up, all are
given up, or the source fails over one of them or the search does after it. -/
inductive IsAttemptOutcome (source : VersionSource) (p : Parameters)
    (goOn : SearchState → SearchM (Option SearchState)) (s : SearchState) (root : ProjectRoot)
    (candidates : List Version) :
    Except SolveError (Option SearchState × SearchRecord) → Prop
  | found {before after : List Version} {version : Version} {mid solved : SearchState}
      {r r' : SearchRecord} (hsplit : candidates = before ++ version :: after)
      (hbefore : ∀ v ∈ before, IsGivenUp source p goOn s root v)
      (hselects : Selects source p s root version mid)
      (hgo : outcome source (goOn mid) r = .ok (some solved, r')) :
      IsAttemptOutcome source p goOn s root candidates (.ok (some solved, r'))
  | givenUp {r : SearchRecord} (hall : ∀ v ∈ candidates, IsGivenUp source p goOn s root v) :
      IsAttemptOutcome source p goOn s root candidates (.ok (none, r))
  | failed {version : Version} {r : SearchRecord} {e : SolveError} (hmem : version ∈ candidates)
      (htry : outcome source (trySelect p s root version) r = .error e) :
      IsAttemptOutcome source p goOn s root candidates (.error e)
  | failedAfter {version : Version} {mid : SearchState} {r : SearchRecord} {e : SolveError}
      (hmem : version ∈ candidates) (hselects : Selects source p s root version mid)
      (hgo : outcome source (goOn mid) r = .error e) :
      IsAttemptOutcome source p goOn s root candidates (.error e)

section Attempt

variable {goOn : SearchState → SearchM (Option SearchState)} {candidates rest : List Version}
  {o : Except SolveError (Option SearchState × SearchRecord)}

theorem IsAttemptOutcome.cons (h : IsAttemptOutcome source p goOn s root rest o)
    (hfirst : IsGivenUp source p goOn s root version) :
    IsAttemptOutcome source p goOn s root (version :: rest) o := by
  cases h with
  | found hsplit hbefore hselects hgo =>
      rw [hsplit]
      exact .found (List.cons_append ..).symm (List.forall_mem_cons.mpr ⟨hfirst, hbefore⟩) hselects
        hgo
  | givenUp hall => exact .givenUp (List.forall_mem_cons.mpr ⟨hfirst, hall⟩)
  | failed hmem htry => exact .failed (List.mem_cons_of_mem _ hmem) htry
  | failedAfter hmem hselects hgo => exact .failedAfter (List.mem_cons_of_mem _ hmem) hselects hgo

private theorem outcome_attempt (source : VersionSource) (p : Parameters)
    (goOn : SearchState → SearchM (Option SearchState)) (s : SearchState) (root : ProjectRoot)
    (candidates : List Version) (r : SearchRecord) :
    IsAttemptOutcome source p goOn s root candidates
      (outcome source (attempt p goOn s root candidates) r) := by
  induction candidates generalizing r with
  | nil => exact .givenUp (by simp)
  | cons version rest ih =>
      rw [attempt]
      simp only [outcome_bind, outcome_checkpoint, outcome_modify]
      have hspec := outcome_trySelect source p s root version { r with attempts := r.attempts + 1 }
      generalize htry : outcome source (trySelect p s root version)
        { r with attempts := r.attempts + 1 } = o at hspec
      cases hspec with
      | failed => exact .failed List.mem_cons_self htry
      | exhausted => exact .failed List.mem_cons_self htry
      | conflict => exact (ih _).cons ⟨_, _, _, htry, fun next hnext => by cases hnext⟩
      | @selected mid hselects =>
          dsimp only
          rw [outcome_bind]
          cases hgo : outcome source (goOn mid) { r with attempts := r.attempts + 1 } with
          | error e => exact .failedAfter List.mem_cons_self hselects hgo
          | ok result =>
              obtain ⟨none | solved, r₂⟩ := result
              · refine (ih r₂).cons ⟨_, _, _, htry, ?_⟩
                rintro next hnext
                cases hnext
                exact ⟨r₂, hgo⟩
              · exact .found (List.nil_append _).symm (by simp) hselects hgo

end Attempt

/-! ### Deciding about a project -/

/-- What a search does about the project that it decides next. -/
def decideNext (p : Parameters) (limit : Nat) (s : SearchState) (root : ProjectRoot) :
    SearchM (Option SearchState) := do
  match ← open? p s root with
  | .error c =>
      note c
      return none
  | .ok candidates =>
      match ← attempt p (explore p limit) s root candidates with
      | some solved => return some solved
      | none =>
          note (s.conflict p root (.candidatesExhausted candidates))
          return none

/-- What the decision about a project comes to: a candidate is found after some that were given up,
there is none or all are given up, or an error breaks the search off: the versions of the project
cannot be listed, a candidate cannot be tried, or the search fails after one is selected. -/
inductive IsDecideOutcome (source : VersionSource) (p : Parameters) (limit : Nat) (s : SearchState)
    (root : ProjectRoot) : Except SolveError (Option SearchState × SearchRecord) → Prop
  | found {listed before after : List Version} {version : Version} {mid solved : SearchState}
      {r r' : SearchRecord} (hversions : source.versionsOf root = .ok listed)
      (hsplit : s.candidates p root listed = before ++ version :: after)
      (hbefore : ∀ v ∈ before, IsGivenUp source p (explore p limit) s root v)
      (hselects : Selects source p s root version mid)
      (hgo : outcome source (explore p limit mid) r = .ok (some solved, r')) :
      IsDecideOutcome source p limit s root (.ok (some solved, r'))
  | givenUp {r : SearchRecord}
      (hall : ∀ listed, source.versionsOf root = .ok listed → ∀ v ∈ s.candidates p root listed,
        IsGivenUp source p (explore p limit) s root v) :
      IsDecideOutcome source p limit s root (.ok (none, r))
  | unlisted {e : SourceError} (hversions : source.versionsOf root = .error e) :
      IsDecideOutcome source p limit s root (.error (.source e))
  | failed {listed : List Version} {version : Version} {r : SearchRecord} {e : SolveError}
      (hversions : source.versionsOf root = .ok listed)
      (hmem : version ∈ s.candidates p root listed)
      (htry : outcome source (trySelect p s root version) r = .error e) :
      IsDecideOutcome source p limit s root (.error e)
  | failedAfter {listed : List Version} {version : Version} {mid : SearchState} {r : SearchRecord}
      {e : SolveError} (hversions : source.versionsOf root = .ok listed)
      (hmem : version ∈ s.candidates p root listed) (hselects : Selects source p s root version mid)
      (hgo : outcome source (explore p limit mid) r = .error e) :
      IsDecideOutcome source p limit s root (.error e)

private theorem candidates_eq_nil_of_isNothing (h : (s.constraintOn p root).isNothing = true)
    (listed : List Version) : s.candidates p root listed = [] := by
  apply List.eq_nil_iff_forall_not_mem.mpr
  intro version hmem
  have hsatisfied := satisfiedBy_of_mem_candidates hmem
  rw [Constraint.isNothing_eq_false_of_satisfiedBy hsatisfied] at h
  cases h

theorem outcome_decideNext (source : VersionSource) (p : Parameters) (limit : Nat)
    (s : SearchState) (root : ProjectRoot) (r : SearchRecord) :
    IsDecideOutcome source p limit s root (outcome source (decideNext p limit s root) r) := by
  rw [decideNext, open?]
  split
  · rename_i hnothing
    refine .givenUp fun listed _ v hv => ?_
    rw [candidates_eq_nil_of_isNothing hnothing] at hv
    cases hv
  · simp only [outcome_bind, outcome_versions?]
    cases hversions : source.versionsOf root with
    | error e =>
        cases e with
        | notFound owner => exact .givenUp fun listed hlisted => by simp [hversions] at hlisted
        | fetch owner message => exact .unlisted hversions
    | ok listed =>
        dsimp only
        cases hcandidates : s.candidates p root listed with
        | nil =>
            refine .givenUp fun listed' hlisted v hv => ?_
            obtain rfl : listed = listed' := Except.ok.inj (hversions.symm.trans hlisted)
            rw [hcandidates] at hv
            cases hv
        | cons first rest =>
            dsimp only [outcome_pure]
            rw [← hcandidates, outcome_bind]
            have hspec := outcome_attempt source p (explore p limit) s root
              (s.candidates p root listed) r
            generalize outcome source (attempt p (explore p limit) s root
              (s.candidates p root listed)) r = o at hspec
            cases hspec with
            | found hsplit hbefore hselects hgo =>
                exact .found hversions hsplit hbefore hselects hgo
            | givenUp hall =>
                refine .givenUp fun listed' hlisted v hv => ?_
                obtain rfl : listed = listed' := Except.ok.inj (hversions.symm.trans hlisted)
                exact hall v hv
            | failed hmem htry => exact .failed hversions hmem htry
            | failedAfter hmem hselects hgo => exact .failedAfter hversions hmem hselects hgo

/-! ### Exploring a state -/

/-- What exploring a state comes to: nothing is pending, or a pending project has no list of
versions, is beyond the limit, or is decided next. -/
inductive IsExploreOutcome (source : VersionSource) (p : Parameters) (s : SearchState)
    (r : SearchRecord) : Nat → Except SolveError (Option SearchState × SearchRecord) → Prop
  | finished {limit : Nat} (hdone : s.pending = []) :
      IsExploreOutcome source p s r limit (.ok (some s, r))
  | failed {limit : Nat} {root : ProjectRoot} {e : SourceError} (hpending : root ∈ s.pending)
      (hversions : source.versionsOf root = .error e) :
      IsExploreOutcome source p s r limit (.error (.source e))
  | limited {root : ProjectRoot} (hpending : root ∈ s.pending) :
      IsExploreOutcome source p s r 0 (.error .limitReached)
  | decided {limit : Nat} {root : ProjectRoot} (hnext : IsNext source p s root) :
      IsExploreOutcome source p s r (limit + 1) (outcome source (decideNext p limit s root) r)

private theorem isNext_of_isFirstLeast (h : IsFirstLeast source p s.pending root) :
    IsNext source p s root :=
  ⟨h.mem, fun _ hother => h.isLE s.pairwise_pending hother⟩

theorem outcome_explore (source : VersionSource) (p : Parameters) (limit : Nat) (s : SearchState)
    (r : SearchRecord) :
    IsExploreOutcome source p s r limit (outcome source (explore p limit s) r) := by
  rw [explore.eq_def]
  simp only [outcome_bind, outcome_checkpoint]
  have hspec := @outcome_nextAmong source p none s.pending r
  generalize outcome source (nextAmong p none s.pending) r = o at hspec
  cases hspec with
  | failed hmem hversions => exact .failed hmem hversions
  | chosen =>
      rcases @bestOf_none source p s.pending with ⟨hdone, hnone⟩ | ⟨root, hbest, hfirst⟩
      · rw [hnone]
        exact .finished hdone
      · rw [hbest]
        cases limit with
        | zero => exact .limited hfirst.mem
        | succ limit => exact .decided (isNext_of_isFirstLeast hfirst)

theorem decides_of_outcome_explore
    (h : outcome source (explore p limit s) r = .ok (some solved, r')) :
    ∃ order, order.length ≤ limit ∧ Decides source p order s solved := by
  -- The limit goes down by one with each decision, and only a successful branch goes on.
  induction limit using Nat.strongRecOn generalizing s r r' with
  | ind limit ih =>
      have hspec := outcome_explore source p limit s r
      generalize outcome source (explore p limit s) r = o at h hspec
      cases hspec with
      | finished hdone =>
          cases h
          exact ⟨[], Nat.zero_le limit, .done hdone⟩
      | failed hpending hversions => cases h
      | limited hpending => cases h
      | @decided limit root hnext =>
          have hdecide := outcome_decideNext source p limit s root r
          rw [h] at hdecide
          cases hdecide with
          | found hversions hsplit hbefore hselects hgo =>
              obtain ⟨order, hlength, hrest⟩ := ih limit (Nat.lt_succ_self limit) hgo
              exact ⟨root :: order, Nat.succ_le_succ hlength,
                .step hnext hversions hsplit (fun v hv => ⟨limit, hbefore v hv⟩) hselects hrest⟩

end DepSolver.Search
