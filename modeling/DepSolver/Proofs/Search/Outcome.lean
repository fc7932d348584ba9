import DepSolver.Proofs.Table
import DepSolver.Search.Solver

/-!
Searches on a source. A step of a search comes to a value and a record, or to an error; what a
sequence of steps comes to is read off its parts.
-/

namespace DepSolver

namespace Dialogue

/-- What a cache holds is what the source answers. -/
def Recalls (source : VersionSource) (c : Cache) : Prop :=
  ∀ q v, c.get? q = some v → source q = .ok v

theorem recalls_empty (source : VersionSource) : Recalls source .empty := by
  intro q v h
  cases h

theorem Recalls.keep {source : VersionSource} {c : Cache} (h : Recalls source c) (q : Query) :
    Recalls source (c.keep q (source q)) := by
  cases hq : source q with
  | error e => exact h
  | ok v =>
      intro q' v' hget
      rw [Cache.keep, Cache.put, Cache.get?, Cache.find?] at hget
      split at hget
      · rename_i heq
        subst heq
        cases hget
        exact hq
      · exact h q' v' hget

theorem recalls_of_mem_map_keep {source : VersionSource} {cache : Option Cache}
    (h : ∀ c ∈ cache, Recalls source c) (q : Query) :
    ∀ c ∈ cache.map (·.keep q (source q)), Recalls source c := by
  intro c hc
  obtain ⟨c', hc', rfl⟩ := Option.map_eq_some_iff.mp hc
  exact (h c' hc').keep q

theorem run_remembering {α : Type} {source : VersionSource} {keeps : Query → Bool} {c :
    Cache}
    (hc : Recalls source c) (d : Dialogue α) :
    (d.remembering keeps c).run source = d.run source := by
  induction d generalizing c with
  | done a => rfl
  | poll next ih => exact ih hc
  | ask q next ih =>
      rw [remembering]
      split
      · rename_i v hv
        rw [ih _ hc, run, hc q v hv]
      · rw [run, run]
        apply ih
        split
        · exact hc.keep q
        · exact hc

end Dialogue

namespace Search

variable {α β : Type} {source : VersionSource}

/-- What a step of a search comes to on a source, with the record after it. -/
def outcome (source : VersionSource) (m : SearchM α) (r : SearchRecord) :
    Except SolveError (α × SearchRecord) :=
  Dialogue.run source (m r)

@[simp] theorem outcome_pure (a : α) (r : SearchRecord) :
    outcome source (pure a) r = .ok (a, r) := rfl

@[simp] theorem outcome_bind (m : SearchM α) (f : α → SearchM β) (r : SearchRecord) :
    outcome source (m >>= f) r =
      match outcome source m r with
      | .ok (a, r') => outcome source (f a) r'
      | .error e => .error e := by
  rw [outcome, outcome]
  refine (Dialogue.run_bind source (m r) _).trans ?_
  cases Dialogue.run source (m r) <;> rfl

@[simp] theorem outcome_ask (q : Query) (r : SearchRecord) :
    outcome source (ask q) r = .ok (source q, r) := rfl

@[simp] theorem outcome_checkpoint (r : SearchRecord) :
    outcome source checkpoint r = .ok ((), r) := rfl

@[simp] theorem outcome_note (c : ProjectConflict) (r : SearchRecord) :
    outcome source (note c) r = .ok ((), r.add c) := rfl

@[simp] theorem outcome_modify (f : SearchRecord → SearchRecord) (r : SearchRecord) :
    outcome source (modify f) r = .ok ((), f r) := rfl

theorem outcome_bind_eq_ok_iff {m : SearchM α} {f : α → SearchM β} {r : SearchRecord}
    {x : β × SearchRecord} :
    outcome source (m >>= f) r = .ok x ↔
      ∃ a r', outcome source m r = .ok (a, r') ∧ outcome source (f a) r' = .ok x := by
  rw [outcome_bind]
  cases h : outcome source m r with
  | error e => simp
  | ok y =>
      obtain ⟨a, r'⟩ := y
      simp

theorem run_solve (p : Parameters) (limit : Nat) :
    (solve p limit).run source =
      (outcome source (search p limit) .empty).map (·.1) := by
  rw [solve, Dialogue.run_remembering (Dialogue.recalls_empty source), outcome]
  refine (Dialogue.run_bind source (search p limit .empty) _).trans ?_
  cases Dialogue.run source (search p limit .empty) <;> rfl

theorem run_solve_eq_error_iff {p : Parameters} {limit : Nat} {e : SolveError} :
    (solve p limit).run source = .error e ↔ outcome source (search p limit) .empty = .error e := by
  rw [run_solve]
  cases outcome source (search p limit) .empty with
  | error e' => simp [Except.map]
  | ok result => simp [Except.map]

theorem run_solve_eq_ok_iff {p : Parameters} {limit : Nat} {solution : Solution} :
    (solve p limit).run source = .ok solution ↔
      ∃ r, outcome source (search p limit) .empty = .ok (solution, r) := by
  rw [run_solve]
  cases outcome source (search p limit) .empty with
  | error e => simp [Except.map]
  | ok result =>
      obtain ⟨found, r⟩ := result
      simp [Except.map]

end Search

end DepSolver
