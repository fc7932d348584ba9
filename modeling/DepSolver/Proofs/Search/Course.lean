import DepSolver.Proofs.Search.Loop
import DepSolver.Proofs.Search.Occurrence

/-!
The course of a search that fails: the passes that its loop goes through, each with the exchanges
that are made in it. The loop is at a decision in every pass, so the course has every candidate that
was tried and every decision that ran dry.
-/

namespace DepSolver.Search

variable {α β : Type} {p : Parameters} {s : SearchState} {root : ProjectRoot} {stack : List Frame}
  {position position' last : Position} {r r' r'' : SearchRecord} {t : List Exchange}
  {c : ProjectConflict}

/-! ### Steps on a transcript -/

/-- A step comes to a value and a record with the exchanges of a transcript. -/
def Gives (m : SearchM α) (r : SearchRecord) (t : List Exchange) (a : α) (r' : SearchRecord) :
    Prop :=
  Dialogue.Yields (m r) t (.ok (a, r'))

theorem gives_pure {a b : α} : Gives (pure a) r t b r' ↔ t = [] ∧ b = a ∧ r' = r := by
  refine Iff.trans Dialogue.yields_done ?_
  simp

theorem gives_bind {m : SearchM α} {f : α → SearchM β} {b : β} :
    Gives (m >>= f) r t b r'' ↔
      ∃ a r' t₁ t₂, t = t₁ ++ t₂ ∧ Gives m r t₁ a r' ∧ Gives (f a) r' t₂ b r'' := by
  refine Iff.trans (Dialogue.yields_bind (d := m r)) ?_
  constructor
  · rintro ⟨e | ⟨a, r'⟩, t₁, t₂, rfl, h, h'⟩
    · cases (Dialogue.yields_done.mp h').2
    · exact ⟨a, r', t₁, t₂, rfl, h, h'⟩
  · rintro ⟨a, r', t₁, t₂, rfl, h, h'⟩
    exact ⟨.ok (a, r'), t₁, t₂, rfl, h, h'⟩

private theorem yields_bind_error {m : SearchM α} {f : α → SearchM β} {e : SolveError}
    (h : Dialogue.Yields ((m >>= f) r) t (.error e)) :
    Dialogue.Yields (m r) t (.error e) ∨
      ∃ a r' t₁ t₂, t = t₁ ++ t₂ ∧ Gives m r t₁ a r' ∧ Dialogue.Yields (f a r') t₂ (.error e) := by
  obtain ⟨e' | ⟨a, r'⟩, t₁, t₂, rfl, h, h'⟩ := (Dialogue.yields_bind (d := m r)).mp h
  · obtain ⟨rfl, heq⟩ := Dialogue.yields_done.mp h'
    cases heq
    rw [List.append_nil]
    exact .inl h
  · exact .inr ⟨a, r', t₁, t₂, rfl, h, h'⟩

theorem gives_checkpoint_bind {f : Unit → SearchM β} {b : β} :
    Gives (checkpoint >>= f) r t b r' ↔ Gives (f ()) r t b r' :=
  Dialogue.yields_poll

theorem gives_note_bind {f : Unit → SearchM β} {b : β} :
    Gives (note c >>= f) r t b r' ↔ Gives (f ()) (r.add c) t b r' := Iff.rfl

theorem gives_modify_bind {f : Unit → SearchM β} {g : SearchRecord → SearchRecord} {b : β} :
    Gives (modify g >>= f) r t b r' ↔ Gives (f ()) (g r) t b r' := Iff.rfl

theorem Gives.unique {m : SearchM α} {a b : α} (ha : Gives m r t a r') (hb : Gives m r t b r'') :
    a = b ∧ r' = r'' := by
  have heq := Dialogue.Yields.unique ha hb
  simpa using heq

theorem Gives.of_ensures {replies : Replies} {post : α → SearchRecord → Prop} {m : SearchM α}
    {a : α} (h : Gives m r t a r') (hensures : Ensures replies post (fun _ => True) m r)
    (hreplies : ∀ x ∈ t, replies x.query x.answer) : post a r' := by
  have hpost := Dialogue.Ensures.of_yields (d := m r) hensures h hreplies
  exact hpost

private theorem not_yields_unsatisfiable {post : α → SearchRecord → Prop} {m : SearchM α}
    {f : SolveFailure} (hensures : Ensures .any post (fun _ => False) m r) :
    ¬ Dialogue.Yields (m r) t (.error (.unsatisfiable f)) := by
  intro h
  have hpost := Dialogue.Ensures.of_yields (d := m r) hensures h (Replies.any_answer t)
  exact hpost f rfl

/-! ### Courses -/

/-- A pass of the loop: where it begins, with which record, and the exchanges made in it. -/
structure Pass where
  position : Position
  record : SearchRecord
  exchanges : List Exchange

/-- The passes of the loop from one position to another. -/
inductive Course (p : Parameters) :
    Position → SearchRecord → List Pass → Position → SearchRecord → Prop
  | nil (position : Position) (r : SearchRecord) : Course p position r [] position r
  | cons {position position' last : Position} {r r' r'' : SearchRecord} {t : List Exchange}
      {l : List Pass} (hpass : Gives (pass p position) r t position' r')
      (h : Course p position' r' l last r'') :
      Course p position r (⟨position, r, t⟩ :: l) last r''

/-- The exchanges of some passes. -/
def transcript (l : List Pass) : List Exchange := l.flatMap (·.exchanges)

variable {l l' : List Pass}

private theorem transcript_append : transcript (l ++ l') = transcript l ++ transcript l' :=
  List.flatMap_append

theorem Course.append (h : Course p position r l position' r')
    (h' : Course p position' r' l' last r'') : Course p position r (l ++ l') last r'' := by
  induction h with
  | nil => exact h'
  | cons hpass _ ih => exact .cons hpass (ih h')

/-! ### The recursion in place of the loop -/

/-- Where a branch of a search is given up, the loop goes through it and back to the decision
before. -/
def IsRetraced (p : Parameters) (goOn : SearchState → SearchM (Option SearchState)) : Prop :=
  ∀ s stack r t r', Gives (goOn s) r t none r' →
    ∃ l, Course p (.onward s stack) r l (.back stack) r' ∧ transcript l = t

private theorem gives_pass_barred {t₁ t₂ : List Exchange}
    (hnext : Gives (nextAmong p none s.pending) r t₁ (some root) r')
    (hopen : Gives (open? p s root) r' t₂ (.error c) r'') :
    Gives (pass p (.onward s stack)) r (t₁ ++ t₂) (.back stack) (r''.add c) := by
  rw [pass, gives_checkpoint_bind, gives_bind]
  refine ⟨_, _, t₁, t₂, rfl, hnext, ?_⟩
  dsimp only
  rw [gives_bind]
  refine ⟨_, _, t₂, [], (List.append_nil t₂).symm, hopen, ?_⟩
  dsimp only
  rw [gives_note_bind, gives_pure]
  exact ⟨rfl, rfl, rfl⟩

private theorem gives_pass_opened {candidates : List Version} {t₁ t₂ : List Exchange}
    (hnext : Gives (nextAmong p none s.pending) r t₁ (some root) r')
    (hopen : Gives (open? p s root) r' t₂ (.ok candidates) r'') :
    Gives (pass p (.onward s stack)) r (t₁ ++ t₂) (.back (⟨root, candidates, [], s⟩ :: stack))
      r'' := by
  rw [pass, gives_checkpoint_bind, gives_bind]
  refine ⟨_, _, t₁, t₂, rfl, hnext, ?_⟩
  dsimp only
  rw [gives_bind]
  refine ⟨_, _, t₂, [], (List.append_nil t₂).symm, hopen, ?_⟩
  dsimp only
  rw [gives_pure]
  exact ⟨rfl, rfl, rfl⟩

theorem gives_pass_closed {tried : List Version} :
    Gives (pass p (.back (⟨root, [], tried, s⟩ :: stack))) r t position r' ↔
      t = [] ∧ position = .back stack ∧
        r' = r.add (s.conflict p root (.candidatesExhausted tried)) := by
  rw [pass, gives_checkpoint_bind, gives_note_bind, gives_pure]

theorem gives_pass_ended :
    Gives (pass p (.back [])) r t position r' ↔ t = [] ∧ position = .finished none ∧ r' = r := by
  rw [pass, gives_checkpoint_bind, gives_pure]

theorem gives_pass_failed {version : Version} {untried tried : List Version}
    (h : Gives (trySelect p s root version) { r with attempts := r.attempts + 1 } t (.error c) r') :
    Gives (pass p (.back (⟨root, version :: untried, tried, s⟩ :: stack))) r t
      (.back (⟨root, untried, tried ++ [version], s⟩ :: stack)) (r'.add c) := by
  rw [pass, gives_checkpoint_bind, gives_modify_bind, gives_bind]
  refine ⟨_, _, t, [], (List.append_nil t).symm, h, ?_⟩
  dsimp only
  rw [gives_note_bind, gives_pure]
  exact ⟨rfl, rfl, rfl⟩

private theorem gives_pass_advanced {next : SearchState} {version : Version} {untried tried :
    List Version}
    (h : Gives (trySelect p s root version) { r with attempts := r.attempts + 1 } t (.ok next) r') :
    Gives (pass p (.back (⟨root, version :: untried, tried, s⟩ :: stack))) r t
      (.onward next (⟨root, untried, tried ++ [version], s⟩ :: stack)) r' := by
  rw [pass, gives_checkpoint_bind, gives_modify_bind, gives_bind]
  refine ⟨_, _, t, [], (List.append_nil t).symm, h, ?_⟩
  dsimp only
  rw [gives_pure]
  exact ⟨rfl, rfl, rfl⟩

private theorem exists_course_attempt {goOn : SearchState → SearchM (Option SearchState)}
    (hgo : IsRetraced p goOn) {untried : List Version}
    (h : Gives (attempt p goOn s root untried) r t none r') (tried : List Version)
    (stack : List Frame) :
    ∃ l, Course p (.back (⟨root, untried, tried, s⟩ :: stack)) r l
      (.back (⟨root, [], tried ++ untried, s⟩ :: stack)) r' ∧ transcript l = t := by
  induction untried generalizing tried r t with
  | nil =>
      rw [attempt, gives_checkpoint_bind, gives_pure] at h
      obtain ⟨rfl, -, rfl⟩ := h
      rw [List.append_nil]
      exact ⟨[], .nil _ _, rfl⟩
  | cons version untried ih =>
      rw [attempt, gives_checkpoint_bind, gives_modify_bind, gives_bind] at h
      obtain ⟨o, r₁, t₁, t₂, rfl, htry, hrest⟩ := h
      rw [List.append_cons]
      cases o with
      | error c =>
          dsimp only at hrest
          rw [gives_note_bind] at hrest
          obtain ⟨l, hcourse, rfl⟩ := ih hrest (tried ++ [version])
          exact ⟨_ :: l, .cons (gives_pass_failed htry) hcourse, rfl⟩
      | ok next =>
          dsimp only at hrest
          rw [gives_bind] at hrest
          obtain ⟨found, r₂, t₂, t₃, rfl, hgoes, hrest⟩ := hrest
          cases found with
          | some solved => cases (gives_pure.mp hrest).2.1
          | none =>
              obtain ⟨l, hcourse, rfl⟩ := hgo next (⟨root, untried, tried ++ [version], s⟩ :: stack)
                _ _ _ hgoes
              obtain ⟨l', hcourse', rfl⟩ := ih hrest (tried ++ [version])
              refine ⟨_ :: (l ++ l'), .cons (gives_pass_advanced htry) (hcourse.append hcourse'), ?_⟩
              rw [← transcript_append]
              rfl

private theorem isRetraced_explore (p : Parameters) (limit : Nat) : IsRetraced p (explore p limit)
    := by
  induction limit using Nat.strongRecOn with
  | ind limit ih =>
      intro s stack r t r' h
      rw [explore.eq_def, gives_checkpoint_bind, gives_bind] at h
      obtain ⟨o, r₁, t₁, t₂, rfl, hnext, hrest⟩ := h
      cases o with
      | none => cases (gives_pure.mp hrest).2.1
      | some root =>
          cases limit with
          | zero => cases hrest
          | succ limit =>
              dsimp only at hrest
              rw [gives_bind] at hrest
              obtain ⟨opened, r₂, t₂, t₃, rfl, hopen, hrest⟩ := hrest
              cases opened with
              | error c =>
                  dsimp only at hrest
                  rw [gives_note_bind, gives_pure] at hrest
                  obtain ⟨rfl, -, rfl⟩ := hrest
                  exact ⟨[_], .cons (gives_pass_barred hnext hopen) (.nil _ _), by simp [transcript]⟩
              | ok candidates =>
                  dsimp only at hrest
                  rw [gives_bind] at hrest
                  obtain ⟨found, r₃, t₃, t₄, rfl, hattempt, hrest⟩ := hrest
                  cases found with
                  | some solved => cases (gives_pure.mp hrest).2.1
                  | none =>
                      dsimp only at hrest
                      rw [gives_note_bind, gives_pure] at hrest
                      obtain ⟨rfl, -, rfl⟩ := hrest
                      obtain ⟨l, hcourse, rfl⟩ := exists_course_attempt
                        (ih limit (Nat.lt_succ_self limit)) hattempt [] stack
                      -- The decision is closed in a pass of its own, after its last candidate.
                      have hclosed : Course p (.back (⟨root, [], candidates, s⟩ :: stack)) r₃ [_]
                          (.back stack) _ := .cons (gives_pass_closed.mpr ⟨rfl, rfl, rfl⟩) (.nil _ _)
                      refine ⟨_ :: (l ++ _),
                        .cons (gives_pass_opened hnext hopen) (hcourse.append hclosed), ?_⟩
                      simp [transcript]

/-! ### The whole search -/

private theorem gives_firstPosition {work : List Demand} {met : Except ProjectConflict SearchState}
    {t₁ t₂ : List Exchange} (hdemands : Gives (rootDemands p) r t₁ work r')
    (hmeet : Gives (meetAll p .empty work) r' t₂ met r'') :
    Gives (firstPosition p) r (t₁ ++ t₂)
      (match met with
        | .error _ => .finished none
        | .ok s => .onward s [])
      (match met with
        | .error c => r''.add c
        | .ok _ => r'') := by
  rw [firstPosition, gives_bind]
  refine ⟨_, _, t₁, t₂, rfl, hdemands, ?_⟩
  rw [gives_bind]
  refine ⟨_, _, t₂, [], (List.append_nil t₂).symm, hmeet, ?_⟩
  cases met with
  | error c =>
      dsimp only
      rw [gives_note_bind, gives_pure]
      exact ⟨rfl, rfl, rfl⟩
  | ok s =>
      dsimp only
      rw [gives_pure]
      exact ⟨rfl, rfl, rfl⟩

/-- A search that finds nothing goes through its decisions, and reports what it has recorded once
none is left. -/
theorem exists_course_search {limit : Nat} {f : SolveFailure}
    (h : Dialogue.Yields (search p limit .empty) t (.error (.unsatisfiable f))) :
    ∃ first position r₀ l r', Gives (firstPosition p) .empty first position r₀ ∧
      Course p position r₀ l (.finished none) r' ∧ t = first ++ transcript l ∧
      f = r'.toFailure := by
  rw [search] at h
  rcases yields_bind_error h with h | ⟨work, r₀, t₀, t₁, rfl, hdemands, h⟩
  · exact absurd h (not_yields_unsatisfiable ensures_rootDemands)
  obtain ⟨rfl, hoccurs, -⟩ := hdemands.of_ensures ensures_rootDemands (Replies.any_answer t₀)
  rcases yields_bind_error h with h | ⟨met, r₁, t₁, t₂, rfl, hmeet, h⟩
  · exact absurd h (not_yields_unsatisfiable (ensures_expand hoccurs))
  obtain ⟨rfl, hmet⟩ := hmeet.of_ensures (ensures_expand hoccurs) (Replies.any_answer t₁)
  have hfirst := gives_firstPosition hdemands hmeet
  cases met with
  | error c =>
      obtain ⟨rfl, heq⟩ := Dialogue.yields_done.mp h
      cases heq
      refine ⟨_, _, _, [], _, hfirst, .nil _ _, ?_, rfl⟩
      simp [transcript]
  | ok s =>
      rcases yields_bind_error h with h | ⟨found, r₂, t₂, t₃, rfl, hexplore, h⟩
      · exact absurd h (not_yields_unsatisfiable (ensures_explore hmet (hasRecorded_empty _ p)))
      cases found with
      | some solved => cases (Dialogue.yields_done.mp h).2
      | none =>
          obtain ⟨rfl, heq⟩ := Dialogue.yields_done.mp (Dialogue.yields_poll.mp h)
          cases heq
          obtain ⟨l, hcourse, rfl⟩ := isRetraced_explore p limit s [] _ _ _ hexplore
          have hended : Course p (.back []) r₂ [_] (.finished none) r₂ :=
            .cons (gives_pass_ended.mpr ⟨rfl, rfl, rfl⟩) (.nil _ _)
          refine ⟨_, _, _, _, _, hfirst, hcourse.append hended, ?_, rfl⟩
          simp [transcript]

theorem exists_course_solve {limit : Nat} {f : SolveFailure}
    (h : (solve p limit).Yields t (.error (.unsatisfiable f))) :
    ∃ first position r₀ l r', Dialogue.Spares recalls .empty (first ++ transcript l) t ∧
      Gives (firstPosition p) .empty first position r₀ ∧
      Course p position r₀ l (.finished none) r' ∧ f = r'.toFailure := by
  rw [solve, Dialogue.yields_remembering] at h
  obtain ⟨all, hspares, h⟩ := h
  obtain ⟨o, t₁, t₂, rfl, hsearch, h⟩ := (Dialogue.yields_bind (d := search p limit .empty)).mp h
  cases o with
  | ok result => cases (Dialogue.yields_done.mp h).2
  | error e =>
      obtain ⟨rfl, heq⟩ := Dialogue.yields_done.mp h
      cases heq
      obtain ⟨first, position, r₀, l, r', hfirst, hcourse, rfl, hf⟩ := exists_course_search hsearch
      rw [List.append_nil] at hspares
      exact ⟨first, position, r₀, l, r', hspares, hfirst, hcourse, hf⟩

end DepSolver.Search
