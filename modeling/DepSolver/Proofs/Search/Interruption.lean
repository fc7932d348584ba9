import DepSolver.Proofs.Dialogue
import DepSolver.Proofs.Dialogue.Stage
import DepSolver.Proofs.Search.Run
import DepSolver.Proofs.Search.Session
import Mathlib.Logic.Relation

/-!
Searches that watch a signal. The signal may be set before a search starts, between any two of its
steps, or while an answer is awaited, and it stays set. A search that is broken off has no result of
its own, and one that is not comes to what it comes to without a signal.
-/

namespace DepSolver

namespace Dialogue

variable {α : Type} {source : VersionSource}

/-- A dialogue that is carried out while a signal is watched: how far it has come, unless it is
broken off; whether the signal is set; and the answers that it was given, the latest first. -/
structure Watched (α : Type) where
  stage : Option (Stage α)
  isSet : Bool
  given : List Exchange

namespace Watched

/-- A dialogue that is to begin. -/
def start (d : Dialogue α) (isSet : Bool) : Watched α := ⟨some (.ready d), isSet, []⟩

/-- What can happen next. The signal is looked at by a poll, before a question is put and as long as
its answer is awaited. -/
inductive Step (source : VersionSource) : Watched α → Watched α → Prop
  | set {stage : Option (Stage α)} {given : List Exchange} :
      Step source ⟨stage, false, given⟩ ⟨stage, true, given⟩
  | pass {next : Dialogue α} {given : List Exchange} :
      Step source ⟨some (.ready (.poll next)), false, given⟩ ⟨some (.ready next), false, given⟩
  | put {q : Query} {next : q.Answer → Dialogue α} {given : List Exchange} :
      Step source ⟨some (.ready (.ask q next)), false, given⟩
        ⟨some (.awaiting q next), false, given⟩
  | answer {q : Query} {next : q.Answer → Dialogue α} {given : List Exchange} :
      Step source ⟨some (.awaiting q next), false, given⟩
        ⟨some (.ready (next (source q))), false, ⟨q, source q⟩ :: given⟩
  | stopAtPoll {next : Dialogue α} {given : List Exchange} :
      Step source ⟨some (.ready (.poll next)), true, given⟩ ⟨none, true, given⟩
  | stopAtQuestion {q : Query} {next : q.Answer → Dialogue α} {given : List Exchange} :
      Step source ⟨some (.ready (.ask q next)), true, given⟩ ⟨none, true, given⟩
  | stopAwaiting {q : Query} {next : q.Answer → Dialogue α} {given : List Exchange} :
      Step source ⟨some (.awaiting q next), true, given⟩ ⟨none, true, given⟩

/-- Any number of steps. -/
abbrev Run (source : VersionSource) : Watched α → Watched α → Prop :=
  Relation.ReflTransGen (Step source)

/-- The dialogue is over, with a result or broken off. -/
inductive Ends : Watched α → Option α → Prop
  | finished {a : α} {isSet : Bool} {given : List Exchange} :
      Ends ⟨some (.ready (.done a)), isSet, given⟩ (some a)
  | brokenOff {isSet : Bool} {given : List Exchange} : Ends ⟨none, isSet, given⟩ none

theorem Ends.eq_done {d : Dialogue α} {isSet : Bool} {result : Option α}
    (h : (start d isSet).Ends result) : ∃ a, d = .done a ∧ result = some a := by
  cases d with
  | done a =>
      cases h
      exact ⟨a, rfl, rfl⟩
  | poll next => cases h
  | ask q next => cases h

/-! ### Every run ends -/

/-- A bound on the steps that are left, one of which may set the signal. -/
def stepCount (source : VersionSource) (w : Watched α) : Nat :=
  w.stage.elim 0 (·.stepCount source + 1) + if w.isSet then 0 else 1

theorem Step.stepCount_lt {w w' : Watched α} (h : Step source w w') :
    w'.stepCount source < w.stepCount source := by
  cases h <;> simp [stepCount, Stage.stepCount, Dialogue.stepCount]

theorem wellFounded_step (source : VersionSource) :
    WellFounded fun w' w : Watched α => Step source w w' :=
  Subrelation.wf Step.stepCount_lt (measure (stepCount source)).wf

theorem ends_or_exists_step (source : VersionSource) (w : Watched α) :
    (∃ result, w.Ends result) ∨ ∃ w', Step source w w' ∧ w'.isSet = w.isSet := by
  obtain ⟨stage, isSet, given⟩ := w
  match stage, isSet with
  | none, _ => exact .inl ⟨none, .brokenOff⟩
  | some (.ready (.done a)), _ => exact .inl ⟨some a, .finished⟩
  | some (.ready (.poll next)), false => exact .inr ⟨_, .pass, rfl⟩
  | some (.ready (.poll next)), true => exact .inr ⟨_, .stopAtPoll, rfl⟩
  | some (.ready (.ask q next)), false => exact .inr ⟨_, .put, rfl⟩
  | some (.ready (.ask q next)), true => exact .inr ⟨_, .stopAtQuestion, rfl⟩
  | some (.awaiting q next), false => exact .inr ⟨_, .answer, rfl⟩
  | some (.awaiting q next), true => exact .inr ⟨_, .stopAwaiting, rfl⟩

/-! ### What a run comes to -/

/-- What is left of a dialogue comes to a result on the source, unless the dialogue is broken off
because the signal is set. -/
inductive IsOnCourse (source : VersionSource) (a : α) : Watched α → Prop
  | going {stage : Stage α} {isSet : Bool} {given : List Exchange} (h : stage.run source = a) :
      IsOnCourse source a ⟨some stage, isSet, given⟩
  | brokenOff {given : List Exchange} : IsOnCourse source a ⟨none, true, given⟩

theorem IsOnCourse.step {a : α} {w w' : Watched α} (h : IsOnCourse source a w)
    (hstep : Step source w w') : IsOnCourse source a w' := by
  cases hstep with
  | set =>
      cases h with
      | going h => exact .going h
  | pass =>
      cases h with
      | going h => exact .going h
  | put =>
      cases h with
      | going h => exact .going h
  | answer =>
      cases h with
      | going h => exact .going h
  | stopAtPoll => exact .brokenOff
  | stopAtQuestion => exact .brokenOff
  | stopAwaiting => exact .brokenOff

theorem IsOnCourse.of_run {a : α} {w w' : Watched α} (h : IsOnCourse source a w)
    (hrun : Run source w w') : IsOnCourse source a w' := by
  induction hrun with
  | refl => exact h
  | tail _ hstep ih => exact ih.step hstep

theorem IsOnCourse.eq_of_ends {a : α} {w : Watched α} {result : Option α}
    (h : IsOnCourse source a w) (hends : w.Ends result) :
    result = some a ∨ result = none ∧ w.isSet = true := by
  cases hends with
  | finished =>
      cases h with
      | going h => exact .inl (congrArg some h)
  | brokenOff =>
      cases h with
      | brokenOff => exact .inr ⟨rfl, rfl⟩

private theorem eq_start_or_of_run {d : Dialogue α} {w : Watched α} (h : Run source
    (start d true) w) :
    w = start d true ∨ w = ⟨none, true, []⟩ := by
  induction h with
  | refl => exact .inl rfl
  | tail _ hstep ih =>
      rcases ih with rfl | rfl
      · cases hstep <;> exact .inr rfl
      · cases hstep

end Watched

end Dialogue

/-! ### Sessions -/

namespace Session.IsTruthful

open Dialogue (Watched Stage)

variable {α : Type} {source : VersionSource} {s : Session}

theorem exists_run_carryOut (h : s.IsTruthful source) (d : Dialogue α) (given : List Exchange) :
    ∃ w, Watched.Run source ⟨some (.ready d), s.cancelled, given⟩ w ∧
      w.Ends ((d.carryOut Session.handler).run s).1 := by
  induction d generalizing s given with
  | done a => exact ⟨_, .refl, .finished⟩
  | poll next ih =>
      obtain ⟨w, hrun, hends⟩ := ih h given
      change ∃ w, Watched.Run source _ w ∧ Watched.Ends w
        ((if !s.cancelled then next.carryOut Session.handler else pure none).run s).1
      cases hcancelled : s.cancelled with
      | false =>
          rw [hcancelled] at hrun
          exact ⟨w, .head .pass hrun, hends⟩
      | true => exact ⟨_, .single .stopAtPoll, .brokenOff⟩
  | ask q next ih =>
      obtain ⟨htruthful, hanswer⟩ := h.put q
      rw [Dialogue.carryOut, StateT.run_bind, run_ask]
      generalize s.put q = answered at htruthful hanswer
      obtain ⟨answer?, s'⟩ := answered
      rcases hanswer with ⟨rfl, -⟩ | ⟨hcancelled, rfl⟩
      · cases s.cancelled with
        | false => exact ⟨_, .head .set (.single .stopAtQuestion), .brokenOff⟩
        | true => exact ⟨_, .single .stopAtQuestion, .brokenOff⟩
      · obtain ⟨w, hrun, hends⟩ := ih (source q) htruthful (⟨q, source q⟩ :: given)
        rw [hcancelled]
        refine ⟨w, .head .put (.head .answer ?_), hends⟩
        -- The session may have been cancelled while it had the question.
        cases hset : s'.cancelled with
        | false => exact hset ▸ hrun
        | true => exact .head .set (hset ▸ hrun)

/-- A solve in a session comes to what it comes to on the source, or is cancelled. -/
theorem solve_fst (h : s.IsTruthful source) (p : Parameters) :
    (s.solve p).1 = (Search.solve p (s.searchLimit p)).run source ∨
      (s.solve p).1 = .error .cancelled := by
  obtain ⟨w, hrun, hends⟩ := h.exists_run_carryOut (Search.solve p (s.searchLimit p)) []
  have hcourse : Watched.IsOnCourse source ((Search.solve p (s.searchLimit p)).run source)
      ⟨some (.ready (Search.solve p (s.searchLimit p))), s.cancelled, []⟩ := .going rfl
  change Option.getD _ _ = _ ∨ Option.getD _ _ = _
  rcases (hcourse.of_run hrun).eq_of_ends hends with hresult | ⟨hresult, -⟩
  · exact .inl (congrArg (Option.getD · _) hresult)
  · exact .inr (congrArg (Option.getD · _) hresult)

end Session.IsTruthful

namespace Search

variable {α β : Type} {p : Parameters} {limit : Nat} {r : SearchRecord}

/-! ### Searches that ask nothing -/

theorem immediate?_bind (m : SearchM α) (f : α → SearchM β) (r : SearchRecord) :
    Dialogue.immediate? ((m >>= f) r) =
      match Dialogue.immediate? (m r) with
      | some (.ok (a, r')) => Dialogue.immediate? (f a r')
      | some (.error e) => some (.error e)
      | none => none := by
  refine (Dialogue.immediate?_bind (m r) _).trans ?_
  cases Dialogue.immediate? (m r) with
  | none => rfl
  | some result => cases result <;> rfl

private theorem immediate?_groupImports_go (p : Parameters) (owner : Option ProjectRoot)
    (grouped : Table ProjectRoot (SortedSet String)) (imports : List String) (r : SearchRecord) :
    Dialogue.immediate? (groupImports.go p owner grouped imports r) = none ∨
      Dialogue.immediate? (groupImports.go p owner grouped imports r) = some (.ok (grouped, r)) := by
  induction imports with
  | nil => exact .inr rfl
  | cons path rest ih =>
      rw [groupImports.go]
      split
      · exact ih
      · exact .inl rfl

private theorem immediate?_demands (p : Parameters) (owner : Option ProjectRoot)
    (imports : SortedSet String) (r : SearchRecord) :
    Dialogue.immediate? (demands p owner imports r) = none ∨
      Dialogue.immediate? (demands p owner imports r) = some (.ok ([], r)) := by
  rw [demands, immediate?_bind, groupImports]
  rcases immediate?_groupImports_go p owner .empty imports.toList r with hgo | hgo
  · rw [hgo]
    exact .inl rfl
  · rw [hgo]
    exact .inr rfl

private theorem immediate?_explore (p : Parameters) (limit : Nat) (s : SearchState) (r :
    SearchRecord) :
    Dialogue.immediate? (explore p limit s r) = none := by
  rw [explore.eq_def]
  rfl

/-- A search asks or polls before it ends, unless a package of the project that is solved cannot be
used. -/
theorem immediate?_search (p : Parameters) (limit : Nat) (r : SearchRecord) :
    Dialogue.immediate? (search p limit r) = none ∨
      ∃ path message, Dialogue.immediate? (search p limit r) =
        some (.error (.brokenRootPackage path message)) := by
  rw [search, immediate?_bind]
  rcases rootDemands_eq p with ⟨imports, heq, -, -⟩ | ⟨path, message, heq, -⟩
  · left
    rw [heq]
    rcases immediate?_demands p none imports r with hdemands | hdemands
    · rw [hdemands]
    · rw [hdemands]
      change Dialogue.immediate? ((meetAll p .empty [] >>= _) r) = none
      rw [immediate?_bind]
      change Dialogue.immediate? ((explore p limit .empty >>= _) r) = none
      rw [immediate?_bind, immediate?_explore]
  · rw [heq]
    exact .inr ⟨path, message, rfl⟩

private theorem exists_brokenRootPackage_of_solve_eq_done {result : Except SolveError Solution}
    (h : solve p limit = .done result) :
    ∃ path message, result = .error (.brokenRootPackage path message) := by
  have himmediate : Dialogue.immediate? (((search p limit).run' .empty).run) = some result := by
    rw [← Dialogue.immediate?_remembering recalls]
    exact Dialogue.immediate?_eq_some_iff.mpr h
  have hbind := (Dialogue.immediate?_bind (search p limit .empty) _).symm.trans himmediate
  rcases immediate?_search p limit .empty with hnone | ⟨path, message, hbroken⟩
  · rw [hnone] at hbind
    cases hbind
  · rw [hbroken] at hbind
    cases hbind
    exact ⟨path, message, rfl⟩

/-! ### All or nothing -/

/-- What holds of a solve at each moment, if the signal was or was not set when it began. -/
structure IsAllOrNothing (source : VersionSource) (p : Parameters) (limit : Nat) (isSet : Bool)
    (w : Dialogue.Watched (Except SolveError Solution)) : Prop where
  goesOn : (∃ result, w.Ends result) ∨
    ∃ w', Dialogue.Watched.Step source w w' ∧ w'.isSet = w.isSet
  result : ∀ result, w.Ends result →
    result.getD (.error .cancelled) = (solve p limit).run source ∨
      result.getD (.error .cancelled) = .error .cancelled ∧ w.isSet = true
  getsNowhere : isSet = true → w.given = [] ∧ ∀ result, w.Ends result →
    result.getD (.error .cancelled) = .error .cancelled ∨
      ∃ path message, result.getD (.error .cancelled) = .error (.brokenRootPackage path message)

/-- A solve that watches a signal always ends. It is cancelled, and only if the signal is set, or it
comes to what it comes to without a signal. If the signal is set before it begins, it uses no answer
and is cancelled, unless a package of the project that is solved cannot be used. -/
theorem isAllOrNothing_of_run {source : VersionSource} {isSet : Bool}
    {w : Dialogue.Watched (Except SolveError Solution)}
    (hrun : Dialogue.Watched.Run source (.start (solve p limit) isSet) w) :
    (WellFounded fun w'' w' : Dialogue.Watched (Except SolveError Solution) =>
      Dialogue.Watched.Step source w' w'') ∧
    IsAllOrNothing source p limit isSet w := by
  refine ⟨Dialogue.Watched.wellFounded_step source, w.ends_or_exists_step source,
    fun result hends => ?_, fun hset => ?_⟩
  · have hcourse : Dialogue.Watched.IsOnCourse source ((solve p limit).run source)
        (.start (solve p limit) isSet) := .going rfl
    rcases (hcourse.of_run hrun).eq_of_ends hends with rfl | ⟨rfl, hset⟩
    · exact .inl rfl
    · exact .inr ⟨rfl, hset⟩
  · subst hset
    rcases Dialogue.Watched.eq_start_or_of_run hrun with rfl | rfl
    · refine ⟨rfl, fun result hends => .inr ?_⟩
      obtain ⟨a, hdone, rfl⟩ := hends.eq_done
      obtain ⟨path, message, rfl⟩ := exists_brokenRootPackage_of_solve_eq_done hdone
      exact ⟨path, message, rfl⟩
    · refine ⟨rfl, fun result hends => .inl ?_⟩
      cases hends
      rfl

/-- A solve whose second question is never answered, because the signal is set while its answer is
awaited. -/
theorem isAllOrNothing_chain :
    ∃ w : Dialogue.Watched (Except SolveError Solution),
      Dialogue.Watched.Run chainSource (.start (solve (chainParameters ⟨"a.io"⟩ "main") 2) false) w ∧
      w.Ends none ∧
      (WellFounded fun w'' w' : Dialogue.Watched (Except SolveError Solution) =>
        Dialogue.Watched.Step chainSource w' w'') ∧
      IsAllOrNothing chainSource (chainParameters ⟨"a.io"⟩ "main") 2 false w := by
  have htruthful := Session.isTruthful_start chainSource (fun _ => 2) (.during 2 true) false
  obtain ⟨w, hrun, hends⟩ :=
    htruthful.exists_run_carryOut (solve (chainParameters ⟨"a.io"⟩ "main") 2) []
  have hnone : (((solve (chainParameters ⟨"a.io"⟩ "main") 2).carryOut Session.handler).run
      (.start chainSource (fun _ => 2) (.during 2 true) false)).1 = none := by
    rw [← Option.isNone_iff_eq_none]
    decide +kernel
  rw [hnone] at hends
  exact ⟨w, hrun, hends, isAllOrNothing_of_run hrun⟩

end Search

end DepSolver
