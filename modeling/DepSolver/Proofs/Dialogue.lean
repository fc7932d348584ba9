import DepSolver.Search.Dialogue

/-!
Dialogues with a source that need not answer a question the same way twice. A transcript has the
questions that are put, with the answers that they get; what holds of every result that answers of
some kind can lead to holds of the result of a transcript with such answers.
-/

namespace DepSolver

/-- A question with the answer that it gets. -/
structure Exchange where
  query : Query
  answer : query.Answer

theorem Cache.of_get?_keep {c : Cache} {q q' : Query} {answer : q.Answer} {v : q'.Value}
    (h : (c.keep q answer).get? q' = some v) :
    c.get? q' = some v ∨ (⟨q', .ok v⟩ : Exchange) = ⟨q, answer⟩ := by
  cases answer with
  | error e => exact .inl h
  | ok w =>
      rw [Cache.keep, Cache.put, Cache.get?, Cache.find?] at h
      split at h
      · rename_i heq
        subst heq
        cases h
        exact .inr rfl
      · exact .inl h

theorem Cache.get?_keep_self (c : Cache) (q : Query) (v : q.Value) :
    (c.keep q (.ok v)).get? q = some v :=
  dif_pos rfl

theorem Cache.get?_keep_of_ne (c : Cache) {q q' : Query} (answer : q.Answer) (hne : q ≠ q') :
    (c.keep q answer).get? q' = c.get? q' := by
  cases answer with
  | error e => rfl
  | ok v => exact dif_neg hne

/-- Answers that a source may give, perhaps several to one question. -/
abbrev Replies : Type := (q : Query) → q.Answer → Prop

namespace Replies

/-- The answers in a transcript. -/
def ofTranscript (t : List Exchange) : Replies := fun q answer => ⟨q, answer⟩ ∈ t

/-- The answers of a source that answers a question always the same way. -/
def ofSource (source : VersionSource) : Replies := fun q answer => answer = source q

/-- Any answer to any question. -/
def any : Replies := fun _ _ => True

theorem any_answer (t : List Exchange) : ∀ x ∈ t, any x.query x.answer := fun _ _ => trivial

end Replies

namespace Dialogue

variable {α β : Type} {replies : Replies} {d : Dialogue α} {a : α} {t : List Exchange}
  {post : α → Prop}

/-- A dialogue comes to a result with the exchanges of a transcript. Each answer is arbitrary, so
this covers every source, whatever its answers depend on. -/
inductive Yields : Dialogue α → List Exchange → α → Prop
  | done (a : α) : Yields (done a) [] a
  | poll {next : Dialogue α} {t : List Exchange} {a : α} (h : Yields next t a) :
      Yields (poll next) t a
  | ask {q : Query} {next : q.Answer → Dialogue α} {answer : q.Answer} {t : List Exchange} {a : α}
      (h : Yields (next answer) t a) : Yields (ask q next) (⟨q, answer⟩ :: t) a

/-- Whatever a dialogue comes to has a property, as long as the answers are of some kind. -/
def Ensures (replies : Replies) (post : α → Prop) : Dialogue α → Prop
  | done a => post a
  | poll next => next.Ensures replies post
  | ask q next => ∀ answer, replies q answer → (next answer).Ensures replies post

theorem Ensures.of_yields (h : d.Ensures replies post) (hyields : d.Yields t a)
    (hreplies : ∀ x ∈ t, replies x.query x.answer) : post a := by
  induction hyields with
  | done a => exact h
  | poll _ ih => exact ih h hreplies
  | ask _ ih =>
      obtain ⟨hfirst, hrest⟩ := List.forall_mem_cons.mp hreplies
      exact ih (h _ hfirst) hrest

theorem Ensures.imp {post' : α → Prop} (h : d.Ensures replies post)
    (himp : ∀ a, post a → post' a) : d.Ensures replies post' := by
  induction d with
  | done a => exact himp a h
  | poll next ih => exact ih h
  | ask q next ih => exact fun answer hanswer => ih answer (h answer hanswer)

theorem ensures_bind {f : α → Dialogue β} {post : β → Prop} :
    (d >>= f).Ensures replies post ↔
      d.Ensures replies fun a => (f a).Ensures replies post := by
  change (d.bind f).Ensures replies post ↔ _
  induction d with
  | done a => rfl
  | poll next ih => exact ih
  | ask q next ih => exact forall_congr' fun answer => imp_congr_right fun _ => ih answer

theorem Ensures.remembering {keeps : Query → Bool} {c : Cache} (h : d.Ensures replies post)
    (hc : ∀ q v, c.get? q = some v → replies q (.ok v)) :
    (d.remembering keeps c).Ensures replies post := by
  induction d generalizing c with
  | done a => exact h
  | poll next ih => exact ih h hc
  | ask q next ih =>
      rw [Dialogue.remembering]
      split
      · rename_i v hv
        exact ih _ (h _ (hc q v hv)) hc
      · intro answer hanswer
        refine ih answer (h answer hanswer) ?_
        split
        · intro q' v' hget
          rcases Cache.of_get?_keep hget with hget | heq
          · exact hc q' v' hget
          · cases heq
            exact hanswer
        · exact hc

theorem exists_yields_run (source : VersionSource) (d : Dialogue α) :
    ∃ t, d.Yields t (d.run source) ∧ ∀ x ∈ t, x.answer = source x.query := by
  induction d with
  | done a => exact ⟨[], .done a, by simp⟩
  | poll next ih =>
      obtain ⟨t, hyields, hanswers⟩ := ih
      exact ⟨t, .poll hyields, hanswers⟩
  | ask q next ih =>
      obtain ⟨t, hyields, hanswers⟩ := ih (source q)
      exact ⟨⟨q, source q⟩ :: t, .ask hyields, List.forall_mem_cons.mpr ⟨rfl, hanswers⟩⟩

/-! ### Transcripts -/

theorem yields_done {b : α} : (done a).Yields t b ↔ t = [] ∧ b = a := by
  constructor
  · rintro ⟨⟩
    exact ⟨rfl, rfl⟩
  · rintro ⟨rfl, rfl⟩
    exact .done _

theorem yields_poll {next : Dialogue α} : (poll next).Yields t a ↔ next.Yields t a := by
  constructor
  · rintro (_ | h)
    exact h
  · exact .poll

theorem yields_ask {q : Query} {next : q.Answer → Dialogue α} :
    (ask q next).Yields t a ↔ ∃ answer t', t = ⟨q, answer⟩ :: t' ∧ (next answer).Yields t' a := by
  constructor
  · rintro (_ | _ | h)
    exact ⟨_, _, rfl, h⟩
  · rintro ⟨answer, t', rfl, h⟩
    exact .ask h

/-- The answers of a transcript leave a dialogue no choice. -/
theorem Yields.unique {b : α} (ha : d.Yields t a) (hb : d.Yields t b) : a = b := by
  induction ha with
  | done a => exact (yields_done.mp hb).2.symm
  | poll _ ih => exact ih (yields_poll.mp hb)
  | ask _ ih =>
      obtain ⟨answer, t', heq, hb⟩ := yields_ask.mp hb
      cases heq
      exact ih hb

theorem yields_bind {f : α → Dialogue β} {b : β} :
    (d >>= f).Yields t b ↔ ∃ a t₁ t₂, t = t₁ ++ t₂ ∧ d.Yields t₁ a ∧ (f a).Yields t₂ b := by
  change (d.bind f).Yields t b ↔ _
  induction d generalizing t with
  | done a =>
      constructor
      · exact fun h => ⟨a, [], t, rfl, .done a, h⟩
      · rintro ⟨a', t₁, t₂, rfl, h, h'⟩
        obtain ⟨rfl, rfl⟩ := yields_done.mp h
        exact h'
  | poll next ih =>
      simp only [Dialogue.bind, yields_poll, ih]
  | ask q next ih =>
      simp only [Dialogue.bind, yields_ask, ih]
      constructor
      · rintro ⟨answer, t', rfl, a, t₁, t₂, rfl, h, h'⟩
        exact ⟨a, ⟨q, answer⟩ :: t₁, t₂, rfl, ⟨answer, t₁, rfl, h⟩, h'⟩
      · rintro ⟨a, _, t₂, rfl, ⟨answer, t₁, rfl, h⟩, h'⟩
        exact ⟨answer, t₁ ++ t₂, rfl, a, t₁, t₂, rfl, h, h'⟩

/-- Of the exchanges of a dialogue that are listed first, those that are left are listed second when
some successful answers are kept and recalled. -/
inductive Spares (keeps : Query → Bool) : Cache → List Exchange → List Exchange → Prop
  | nil {c : Cache} : Spares keeps c [] []
  | recalled {c : Cache} {q : Query} {v : q.Value} {all put : List Exchange}
      (hget : c.get? q = some v) (h : Spares keeps c all put) :
      Spares keeps c (⟨q, .ok v⟩ :: all) put
  | asked {c : Cache} {q : Query} {answer : q.Answer} {all put : List Exchange}
      (hget : c.get? q = none)
      (h : Spares keeps (if keeps q then c.keep q answer else c) all put) :
      Spares keeps c (⟨q, answer⟩ :: all) (⟨q, answer⟩ :: put)

theorem Spares.forall_mem {keeps : Query → Bool} {c : Cache} {all put : List Exchange}
    {P : Exchange → Prop} (h : Spares keeps c all put) (hput : ∀ x ∈ put, P x)
    (hc : ∀ q v, c.get? q = some v → P ⟨q, .ok v⟩) : ∀ x ∈ all, P x := by
  induction h with
  | nil => simp
  | recalled hget _ ih => exact List.forall_mem_cons.mpr ⟨hc _ _ hget, ih hput hc⟩
  | asked hget _ ih =>
      obtain ⟨hfirst, hrest⟩ := List.forall_mem_cons.mp hput
      refine List.forall_mem_cons.mpr ⟨hfirst, ih hrest ?_⟩
      split
      · intro q v hget
        rcases Cache.of_get?_keep hget with hget | heq
        · exact hc q v hget
        · rw [heq]
          exact hfirst
      · exact hc

/-- A dialogue that recalls answers comes to what it comes to if it puts every question again and is
given the same answer. -/
theorem yields_remembering {keeps : Query → Bool} {c : Cache} :
    (d.remembering keeps c).Yields t a ↔ ∃ all, Spares keeps c all t ∧ d.Yields all a := by
  induction d generalizing c t with
  | done a' =>
      rw [Dialogue.remembering, yields_done]
      constructor
      · rintro ⟨rfl, rfl⟩
        exact ⟨[], .nil, .done _⟩
      · rintro ⟨all, hspares, hyields⟩
        obtain ⟨rfl, rfl⟩ := yields_done.mp hyields
        cases hspares
        exact ⟨rfl, rfl⟩
  | poll next ih =>
      rw [Dialogue.remembering, yields_poll, ih]
      simp only [yields_poll]
  | ask q next ih =>
      rw [Dialogue.remembering]
      constructor
      · intro h
        split at h
        · rename_i v hget
          obtain ⟨all, hspares, hyields⟩ := (ih _).mp h
          exact ⟨_, .recalled hget hspares, .ask hyields⟩
        · rename_i hget
          obtain ⟨answer, t', rfl, hnext⟩ := yields_ask.mp h
          obtain ⟨all, hspares, hyields⟩ := (ih _).mp hnext
          exact ⟨_, .asked hget hspares, .ask hyields⟩
      · rintro ⟨all, hspares, hyields⟩
        obtain ⟨answer, rest, rfl, hnext⟩ := yields_ask.mp hyields
        cases hspares with
        | recalled hget hspares =>
            rw [hget]
            exact (ih _).mpr ⟨rest, hspares, hnext⟩
        | asked hget hspares =>
            rw [hget]
            exact .ask ((ih _).mpr ⟨rest, hspares, hnext⟩)

theorem Yields.notMem_of_get? {keeps : Query → Bool} {c : Cache} {q : Query} {w : q.Value}
    (h : (d.remembering keeps c).Yields t a) (hget : c.get? q = some w) (answer : q.Answer) :
    ⟨q, answer⟩ ∉ t := by
  induction d generalizing c t with
  | done a' =>
      rw [(yields_done.mp h).1]
      exact List.not_mem_nil
  | poll next ih => exact ih (yields_poll.mp h) hget
  | ask q' next ih =>
      rw [Dialogue.remembering] at h
      split at h
      · exact ih _ h hget
      · rename_i hnone
        obtain ⟨answer', t', rfl, hnext⟩ := yields_ask.mp h
        have hne : q' ≠ q := by
          rintro rfl
          simp [hnone] at hget
        have hkept : (if keeps q' then c.keep q' answer' else c).get? q = some w := by
          split
          · rw [Cache.get?_keep_of_ne c answer' hne, hget]
          · exact hget
        rw [List.mem_cons, not_or]
        refine ⟨?_, ih _ hnext hkept⟩
        intro heq
        exact hne (congrArg Exchange.query heq).symm

theorem Yields.eq_of_mem {keeps : Query → Bool} {c : Cache} {q : Query} {v w : q.Value}
    (h : (d.remembering keeps c).Yields t a) (hkeeps : keeps q = true) (hv : ⟨q, .ok v⟩ ∈ t)
    (hw : ⟨q, .ok w⟩ ∈ t) : v = w := by
  induction d generalizing c t with
  | done a' =>
      rw [(yields_done.mp h).1] at hv
      cases hv
  | poll next ih => exact ih (yields_poll.mp h) hv hw
  | ask q' next ih =>
      rw [Dialogue.remembering] at h
      split at h
      · exact ih _ h hv hw
      · obtain ⟨answer, t', rfl, hnext⟩ := yields_ask.mp h
        have hlater : ∀ x y : q.Value, (⟨q, .ok x⟩ : Exchange) = ⟨q', answer⟩ →
            (⟨q, .ok y⟩ : Exchange) ∉ t' := by
          rintro x y heq
          cases heq
          rw [if_pos hkeeps] at hnext
          exact hnext.notMem_of_get? (Cache.get?_keep_self c _ _) _
        rcases List.mem_cons.mp hv with hv | hv
        · rcases List.mem_cons.mp hw with hw | hw
          · have heq : (⟨q, .ok v⟩ : Exchange) = ⟨q, .ok w⟩ := hv.trans hw.symm
            simpa using heq
          · exact absurd hw (hlater v w hv)
        · rcases List.mem_cons.mp hw with hw | hw
          · exact absurd hv (hlater w v hw)
          · exact ih _ hnext hv hw

end Dialogue

end DepSolver
