import DepSolver.Proofs.Search.Course

/-!
What a pass of the loop does to the position of a search and to its record. A conflict that is noted
when a project is opened or a candidate is tried is never one of a decision that ran dry.
-/

namespace DepSolver

/-- The conflict of a decision that ran dry. -/
def ProjectConflict.IsExhaustion (c : ProjectConflict) : Prop :=
  ∃ tried, c.reason = .candidatesExhausted tried

namespace SearchState

variable {p : Parameters} {s : SearchState} {d : Demand} {root : ProjectRoot} {version : Version}
  {c : ProjectConflict}

theorem not_isExhaustion_conflict {reason : ConflictReason}
    (h : ∀ tried, reason ≠ .candidatesExhausted tried) :
    ¬ (s.conflict p root reason).IsExhaustion := by
  rintro ⟨tried, htried⟩
  exact h tried htried

theorem ofReachFailure_ne (e : ReachFailure) (tried : List Version) :
    ConflictReason.ofReachFailure version e ≠ .candidatesExhausted tried := by
  cases e <;> simp [ConflictReason.ofReachFailure]

private theorem not_isExhaustion_of_meet (h : s.meet p d = .error c) : ¬ c.IsExhaustion := by
  rw [meet] at h
  dsimp only at h
  split at h
  · cases h
    exact not_isExhaustion_conflict (by simp)
  · split at h
    · cases h
    · split at h
      · cases h
        exact not_isExhaustion_conflict (by simp)
      · split at h
        · cases h
        · split at h
          · cases h
            exact not_isExhaustion_conflict (ofReachFailure_ne _)
          · cases h

private theorem not_isExhaustion_of_select {tree : PackageTree} {manifest : Manifest}
    (h : s.select p root version tree manifest = .error c) : ¬ c.IsExhaustion := by
  rw [select] at h
  dsimp only at h
  split at h
  · cases h
    exact not_isExhaustion_conflict (ofReachFailure_ne _)
  · cases h

end SearchState

namespace Search

variable {replies : Replies} {p : Parameters} {s : SearchState} {root : ProjectRoot}
  {version : Version} {stack : List Frame} {position position' : Position} {r r' : SearchRecord}
  {t : List Exchange} {blames : SolveFailure → Prop}

theorem ensures_expand_version? {fuel : Nat} {work : List Demand} :
    Ensures replies (fun o r' => r' = r ∧ match o with
        | .ok s' => s'.version? = s.version?
        | .error c => ¬ c.IsExhaustion)
      blames (expand p fuel s work) r := by
  induction fuel generalizing s work with
  | zero =>
      cases work with
      | nil => exact ⟨rfl, rfl⟩
      | cons d work => exact ensures_throw_of_ne (by simp)
  | succ fuel ih =>
      cases work with
      | nil => exact ⟨rfl, rfl⟩
      | cons d work =>
          rw [expand]
          split
          · rename_i c hmeet
            exact ⟨rfl, SearchState.not_isExhaustion_of_meet hmeet⟩
          · rename_i s' imports hmeet
            rw [ensures_bind, ← SearchState.version?_of_meet hmeet]
            refine ensures_demands.imp ?_
            rintro more _ ⟨rfl, -⟩
            exact ih

private theorem ensures_trySelect_version? :
    Ensures replies (fun o r' => r' = r ∧ match o with
        | .ok next => next.version? = Function.update s.version? root (some version)
        | .error c => ¬ c.IsExhaustion)
      blames (trySelect p s root version) r := by
  rw [trySelect, ensures_bind, ensures_ask]
  rintro (e | tree) -
  · cases e with
    | notFound owner => exact ⟨rfl, SearchState.not_isExhaustion_conflict (by simp)⟩
    | fetch owner message => exact ensures_throw_of_ne (by simp)
  · dsimp only
    rw [ensures_bind, ensures_ask]
    rintro (e | manifest) -
    · cases e with
      | notFound owner => exact ⟨rfl, SearchState.not_isExhaustion_conflict (by simp)⟩
      | fetch owner message => exact ensures_throw_of_ne (by simp)
    · dsimp only
      split
      · rename_i c hselect
        exact ⟨rfl, SearchState.not_isExhaustion_of_select hselect⟩
      · rename_i mid imports hselect
        rw [ensures_bind, ← SearchState.version?_of_select hselect]
        refine ensures_demands.imp ?_
        rintro work _ ⟨rfl, -⟩
        exact ensures_expand_version?

private theorem ensures_open?_error :
    Ensures replies (fun o _ => ∀ c, o = .error c → ¬ c.IsExhaustion) blames (open? p s root) r := by
  rw [open?]
  split
  · rintro _ ⟨⟩
    exact SearchState.not_isExhaustion_conflict (by simp)
  · rw [ensures_bind]
    refine ensures_versions?.imp ?_
    rintro (_ | listed) _ -
    · rintro _ ⟨⟩
      exact SearchState.not_isExhaustion_conflict (by simp)
    · dsimp only
      split
      · rintro _ ⟨⟩
        exact SearchState.not_isExhaustion_conflict (by simp)
      · rintro _ ⟨⟩

/-- What a pass does to the position and to the record. -/
inductive Moves (replies : Replies) (p : Parameters) :
    Position → SearchRecord → Position → SearchRecord → Prop
  | done {s : SearchState} {stack : List Frame} {r : SearchRecord} :
      Moves replies p (.onward s stack) r (.finished (some s)) r
  | barred {s : SearchState} {stack : List Frame} {r : SearchRecord} {c : ProjectConflict}
      (hother : ¬ c.IsExhaustion) : Moves replies p (.onward s stack) r (.back stack) (r.add c)
  | opened {s : SearchState} {stack : List Frame} {r : SearchRecord} {root : ProjectRoot}
      {listed : List Version} (hpending : root ∈ s.pending)
      (hversions : replies (.versions root) (.ok listed)) :
      Moves replies p (.onward s stack) r
        (.back (⟨root, s.candidates p root listed, [], s⟩ :: stack)) r
  | ended {r : SearchRecord} : Moves replies p (.back []) r (.finished none) r
  | closed {root : ProjectRoot} {tried : List Version} {s : SearchState} {stack : List Frame}
      {r : SearchRecord} :
      Moves replies p (.back (⟨root, [], tried, s⟩ :: stack)) r (.back stack)
        (r.add (s.conflict p root (.candidatesExhausted tried)))
  | failed {root : ProjectRoot} {version : Version} {untried tried : List Version}
      {s : SearchState} {stack : List Frame} {r : SearchRecord} {c : ProjectConflict}
      (hother : ¬ c.IsExhaustion) :
      Moves replies p (.back (⟨root, version :: untried, tried, s⟩ :: stack)) r
        (.back (⟨root, untried, tried ++ [version], s⟩ :: stack))
        ({ r with attempts := r.attempts + 1 }.add c)
  | advanced {root : ProjectRoot} {version : Version} {untried tried : List Version}
      {s next : SearchState} {stack : List Frame} {r : SearchRecord}
      (hversion : next.version? = Function.update s.version? root (some version)) :
      Moves replies p (.back (⟨root, version :: untried, tried, s⟩ :: stack)) r
        (.onward next (⟨root, untried, tried ++ [version], s⟩ :: stack))
        { r with attempts := r.attempts + 1 }
  | rested {solved : Option SearchState} {r : SearchRecord} :
      Moves replies p (.finished solved) r (.finished solved) r

private theorem moves_of_gives_onward (h : Gives (pass p (.onward s stack)) r t position' r')
    (hreplies : ∀ x ∈ t, replies x.query x.answer) :
    Moves replies p (.onward s stack) r position' r' := by
  rw [pass, gives_checkpoint_bind, gives_bind] at h
  obtain ⟨o, r₁, t₁, t₂, rfl, hnext, h⟩ := h
  obtain ⟨hreplies₁, hreplies₂⟩ := List.forall_mem_append.mp hreplies
  obtain ⟨rfl, hpending⟩ := hnext.of_ensures ensures_nextAmong hreplies₁
  cases o with
  | none =>
      obtain ⟨rfl, rfl, rfl⟩ := gives_pure.mp h
      exact .done
  | some root =>
      dsimp only at h
      rw [gives_bind] at h
      obtain ⟨opened, r₂, t₂, t₃, rfl, hopen, h⟩ := h
      have hreplies₃ := (List.forall_mem_append.mp hreplies₂).1
      obtain ⟨rfl, hopened⟩ := hopen.of_ensures ensures_open? hreplies₃
      have herror := hopen.of_ensures ensures_open?_error hreplies₃
      cases opened with
      | error c =>
          dsimp only at h
          rw [gives_note_bind, gives_pure] at h
          obtain ⟨-, rfl, rfl⟩ := h
          exact .barred (herror c rfl)
      | ok candidates =>
          obtain ⟨rfl, rfl, rfl⟩ := gives_pure.mp h
          obtain ⟨listed, hversions, rfl⟩ := hopened
          exact .opened (hpending.resolve_right (by simp)) hversions

theorem moves_of_gives (h : Gives (pass p position) r t position' r')
    (hreplies : ∀ x ∈ t, replies x.query x.answer) : Moves replies p position r position' r' := by
  match position with
  | .onward s stack => exact moves_of_gives_onward h hreplies
  | .finished solved =>
      obtain ⟨rfl, rfl, rfl⟩ := gives_pure.mp h
      exact .rested
  | .back [] =>
      obtain ⟨-, rfl, rfl⟩ := gives_pass_ended.mp h
      exact .ended
  | .back (⟨root, [], tried, s⟩ :: stack) =>
      obtain ⟨-, rfl, rfl⟩ := gives_pass_closed.mp h
      exact .closed
  | .back (⟨root, version :: untried, tried, s⟩ :: stack) =>
      rw [pass, gives_checkpoint_bind, gives_modify_bind, gives_bind] at h
      obtain ⟨o, r₁, t₁, t₂, rfl, htry, h⟩ := h
      obtain ⟨rfl, htried⟩ := htry.of_ensures ensures_trySelect_version?
        (List.forall_mem_append.mp hreplies).1
      cases o with
      | error c =>
          dsimp only at h
          rw [gives_note_bind, gives_pure] at h
          obtain ⟨-, rfl, rfl⟩ := h
          exact .failed htried
      | ok next =>
          obtain ⟨rfl, rfl, rfl⟩ := gives_pure.mp h
          exact .advanced htried

end Search

end DepSolver
