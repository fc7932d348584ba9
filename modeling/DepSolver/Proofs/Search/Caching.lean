import DepSolver.Proofs.Check
import Mathlib.Data.Finset.Card

/-!
Sessions that keep answers, in front of a source that need not answer a question the same way twice.
What such a session keeps is the first successful answer to each question. If the source answers
always the same way, then keeping answers changes no search.
-/

namespace DepSolver

/-- The version of which a question asks for the packages. -/
def Query.tree? : Query → Option (ProjectRoot × Version)
  | tree project version => some (project, version)
  | _ => none

theorem Query.tree?_eq_some_iff {q : Query} {key : ProjectRoot × Version} :
    q.tree? = some key ↔ q = tree key.1 key.2 := by
  obtain ⟨project, version⟩ := key
  cases q <;> simp [tree?]

/-! ### Calls -/

/-- A question that is put, and the source as it answers at that time. -/
structure Call where
  source : VersionSource
  query : Query

namespace Call

variable {calls : List Call}

/-- The answer of the source to a question, if this question is put and is answered successfully. -/
def success? (x : Call) (q : Query) : Option q.Value :=
  if x.query = q then (x.source q).toOption else none

/-- The first successful answer to a question. -/
def firstSuccess? (q : Query) (calls : List Call) : Option q.Value :=
  calls.findSome? (·.success? q)

/-- The version of which the source gives the packages. -/
def servedTree? (x : Call) : Option (ProjectRoot × Version) :=
  if (x.success? x.query).isSome then x.query.tree? else none

theorem firstSuccess?_concat (q : Query) (calls : List Call) (x : Call) :
    firstSuccess? q (calls ++ [x]) = (firstSuccess? q calls).or (x.success? q) := by
  rw [firstSuccess?, List.findSome?_append, List.findSome?_singleton]
  rfl

theorem success?_of_ne {x : Call} {q : Query} (h : x.query ≠ q) : x.success? q = none := if_neg h

theorem servedTree?_eq_some_iff {x : Call} {key : ProjectRoot × Version} :
    x.servedTree? = some key ↔ (x.success? (.tree key.1 key.2)).isSome := by
  rw [servedTree?]
  by_cases hquery : x.query = .tree key.1 key.2
  · rw [hquery, Query.tree?_eq_some_iff.mpr rfl, ite_eq_left_iff]
    simp [Option.isSome_iff_ne_none]
  · rw [success?_of_ne hquery]
    have htree := mt Query.tree?_eq_some_iff.mp hquery
    simp [htree]

theorem mem_servedTrees_iff {key : ProjectRoot × Version} :
    key ∈ calls.filterMap servedTree? ↔ (firstSuccess? (.tree key.1 key.2) calls).isSome := by
  rw [firstSuccess?, List.isSome_findSome?, List.any_eq_true, List.mem_filterMap]
  exact exists_congr fun x => and_congr_right fun _ => servedTree?_eq_some_iff

end Call

/-! ### Caches -/

namespace Cache

variable {c : Cache} {calls : List Call}

theorem isSome_get?_iff {q : Query} : (c.get? q).isSome ↔ q ∈ c.answers.map (·.1) := by
  obtain ⟨answers⟩ := c
  change (find? q answers).isSome ↔ _
  induction answers with
  | nil => simp [find?]
  | cons first rest ih =>
      obtain ⟨q', v⟩ := first
      rw [find?]
      by_cases h : q' = q
      · simp [h]
      · simp [h, ih, Ne.symm h]

theorem get?_keep (x : Call) (q : Query) (h : c.get? x.query = none) :
    (c.keep x.query (x.source x.query)).get? q = (c.get? q).or (x.success? q) := by
  by_cases hquery : x.query = q
  · subst hquery
    rw [h, Option.none_or, Call.success?, if_pos rfl]
    cases x.source x.query with
    | error e => exact h
    | ok v => exact dif_pos rfl
  · rw [Call.success?_of_ne hquery, Option.or_none]
    cases x.source x.query with
    | error e => rfl
    | ok v => exact dif_neg hquery

/-- The cache holds the first successful answers of some calls, each once. -/
structure Holds (calls : List Call) (c : Cache) : Prop where
  get?_eq : ∀ q, c.get? q = Call.firstSuccess? q calls
  nodup : (c.answers.map (·.1)).Nodup

private theorem holds_empty : Holds [] .empty := ⟨fun _ => rfl, .nil⟩

theorem Holds.recall {x : Call} {v : x.query.Value} (h : Holds calls c)
    (hget : c.get? x.query = some v) : Holds (calls ++ [x]) c := by
  refine ⟨fun q => ?_, h.nodup⟩
  rw [Call.firstSuccess?_concat, ← h.get?_eq]
  by_cases hquery : x.query = q
  · subst hquery
    rw [hget, Option.some_or]
  · rw [Call.success?_of_ne hquery, Option.or_none]

theorem Holds.keep {x : Call} (h : Holds calls c) (hget : c.get? x.query = none) :
    Holds (calls ++ [x]) (c.keep x.query (x.source x.query)) := by
  refine ⟨fun q => ?_, ?_⟩
  · rw [get?_keep x q hget, Call.firstSuccess?_concat, h.get?_eq]
  · have hfresh : x.query ∉ c.answers.map (·.1) := by
      rw [← isSome_get?_iff, hget]
      simp
    cases x.source x.query with
    | error e => exact h.nodup
    | ok v => exact List.nodup_cons.mpr ⟨hfresh, h.nodup⟩

theorem treeCount_eq (c : Cache) :
    c.treeCount = ((c.answers.map (·.1)).filterMap Query.tree?).length := by
  rw [treeCount, ← List.countP_eq_length_filter, List.length_filterMap_eq_countP, List.countP_map]
  refine List.countP_congr fun x _ => ?_
  obtain ⟨q, v⟩ := x
  cases q <;> rfl

theorem Holds.treeCount_eq_card (h : Holds calls c) :
    c.treeCount = (calls.filterMap Call.servedTree?).toFinset.card := by
  have hnodup : ((c.answers.map (·.1)).filterMap Query.tree?).Nodup := by
    refine h.nodup.filterMap fun q q' key hq hq' => ?_
    rw [Query.tree?_eq_some_iff.mp hq, Query.tree?_eq_some_iff.mp hq']
  have hmem : ((c.answers.map (·.1)).filterMap Query.tree?).toFinset =
      (calls.filterMap Call.servedTree?).toFinset := by
    ext key
    rw [List.mem_toFinset, List.mem_toFinset, Call.mem_servedTrees_iff, ← h.get?_eq,
      isSome_get?_iff, List.mem_filterMap]
    simp only [Query.tree?_eq_some_iff, exists_eq_right]
  rw [treeCount_eq, ← hmem, List.toFinset_card_of_nodup hnodup]

end Cache

/-! ### Sessions that keep answers -/

namespace Session

variable {calls : List Call} {s : Session}

/-- Put a question to a session while its source answers in some way. -/
def call (s : Session) (x : Call) : Option x.query.Answer × Session :=
  { s with source := x.source }.put x.query

/-- The session after some calls. -/
def afterCalls (s : Session) (calls : List Call) : Session :=
  calls.foldl (fun s x => (s.call x).2) s

/-- The session is not cancelled, and it keeps what was answered successfully by some calls. -/
structure HasKept (calls : List Call) (s : Session) : Prop where
  cancellation_eq : s.cancellation = .never
  cancelled_eq : s.cancelled = false
  holds : ∃ c, s.cache = some c ∧ c.Holds calls

theorem HasKept.call (h : s.HasKept calls) (x : Call) :
    s.call x = match Call.firstSuccess? x.query calls with
      | some v => (some (.ok v), { s with source := x.source })
      | none => (some (x.source x.query), { s with
          source := x.source, log := x.query :: s.log,
          cache := s.cache.map (·.keep x.query (x.source x.query)) }) := by
  obtain ⟨c, hcache, hholds⟩ := h.holds
  rw [Session.call, put, h.cancelled_eq, if_neg Bool.false_ne_true, hcache, Option.bind_some,
    hholds.get?_eq]
  cases Call.firstSuccess? x.query calls with
  | some v => rfl
  | none =>
      dsimp only
      rw [h.cancellation_eq]
      rfl

theorem HasKept.after_call (h : s.HasKept calls) (x : Call) :
    (s.call x).2.HasKept (calls ++ [x]) := by
  obtain ⟨c, hcache, hholds⟩ := h.holds
  have hget := hholds.get?_eq x.query
  rw [h.call]
  cases hfirst : Call.firstSuccess? x.query calls with
  | some v =>
      rw [hfirst] at hget
      exact ⟨h.cancellation_eq, h.cancelled_eq, c, hcache, hholds.recall hget⟩
  | none =>
      rw [hfirst] at hget
      exact ⟨h.cancellation_eq, h.cancelled_eq, _, by rw [hcache]; rfl, hholds.keep hget⟩

theorem HasKept.after_calls {before : List Call} (h : s.HasKept before) (calls : List Call) :
    (s.afterCalls calls).HasKept (before ++ calls) := by
  induction calls generalizing s before with
  | nil => rwa [List.append_nil]
  | cons x rest ih =>
      have hrest := ih (h.after_call x)
      rwa [List.append_assoc] at hrest

private theorem hasKept_start (source : VersionSource) (searchLimit : Parameters → Nat) :
    (Session.start source searchLimit .never true).HasKept [] :=
  ⟨rfl, rfl, .empty, rfl, Cache.holds_empty⟩

theorem IsLasting.call {source : VersionSource} (h : s.IsLasting source) (q : Query) :
    (s.call ⟨source, q⟩).2.IsLasting source ∧
      (s.call ⟨source, q⟩).2.searchLimit = s.searchLimit := by
  obtain rfl := h.source_eq
  obtain ⟨s', hput, hlasting⟩ := h.put q
  have hlimit := s.searchLimit_put q
  rw [hput] at hlimit
  rw [Session.call]
  change ((s.put q).2).IsLasting _ ∧ (s.put q).2.searchLimit = _
  rw [hput]
  exact ⟨hlasting, hlimit⟩

theorem IsLasting.after_calls {source : VersionSource} (h : s.IsLasting source)
    (queries : List Query) : (s.afterCalls (queries.map (Call.mk source))).IsLasting source ∧
      (s.afterCalls (queries.map (Call.mk source))).searchLimit = s.searchLimit := by
  induction queries generalizing s with
  | nil => exact ⟨h, rfl⟩
  | cons q rest ih =>
      obtain ⟨hlasting, hlimit⟩ := h.call q
      rw [← hlimit]
      exact ih hlasting

/-- What the session keeps as the answer to a question. -/
def kept? (s : Session) (q : Query) : Option q.Value := s.cache.bind (·.get? q)

/-- A session recalls what was answered successfully by some calls, each answer under its own
question, and asks its source for everything else. -/
structure IsTransparent (calls : List Call) (s : Session) : Prop where
  answer : ∀ x : Call, (s.call x).1 =
    some ((Call.firstSuccess? x.query calls).elim (x.source x.query) .ok)
  log : ∀ x : Call, (s.call x).2.log =
    if (Call.firstSuccess? x.query calls).isSome then s.log else x.query :: s.log
  kept : ∀ q, s.kept? q = Call.firstSuccess? q calls
  treeCount : s.treeCount = (calls.filterMap Call.servedTree?).toFinset.card

/-- A session that keeps answers is transparent after any calls, however its source answers. If the
source answers always the same way, then projects that are solved one after another in such a
session come to what they come to on the bare source. -/
theorem isTransparent_afterCalls (first source : VersionSource) (searchLimit : Parameters → Nat)
    (calls : List Call) (queries : List Query) (inputs : List (String × Parameters)) :
    ((Session.start first searchLimit .never true).afterCalls calls).IsTransparent calls ∧
      Check.solveAll ((Session.start source searchLimit .never true).afterCalls
        (queries.map (Call.mk source))) inputs =
        inputs.map (Check.solveAlone source searchLimit) := by
  constructor
  · have hkept : ((Session.start first searchLimit .never true).afterCalls calls).HasKept calls :=
      (hasKept_start first searchLimit).after_calls calls
    generalize (Session.start first searchLimit .never true).afterCalls calls = s at hkept
    obtain ⟨c, hcache, hholds⟩ := hkept.holds
    refine ⟨fun x => ?_, fun x => ?_, fun q => ?_, ?_⟩
    · rw [hkept.call]
      cases Call.firstSuccess? x.query calls <;> rfl
    · rw [hkept.call]
      cases Call.firstSuccess? x.query calls <;> rfl
    · rw [kept?, hcache]
      exact hholds.get?_eq q
    · rw [Session.treeCount, hcache]
      exact hholds.treeCount_eq_card
  · obtain ⟨hlasting, hlimit⟩ :=
      (isLasting_start source searchLimit true).after_calls queries
    rw [Check.solveAll_eq_map hlasting, hlimit]
    rfl

end Session

end DepSolver
