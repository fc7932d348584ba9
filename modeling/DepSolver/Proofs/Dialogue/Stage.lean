import DepSolver.Search.Dialogue

/-!
Dialogues that are carried out step by step, so that other things may happen between two steps and
while an answer is awaited.
-/

namespace DepSolver.Dialogue

variable {α β : Type}

/-- How many steps a dialogue takes on a source: one for a poll, and two for a question, which is
put and then answered. -/
def stepCount (source : VersionSource) : Dialogue α → Nat
  | done _ => 0
  | poll next => next.stepCount source + 1
  | ask q next => (next (source q)).stepCount source + 2

/-- How far a dialogue has come: what is left of it, perhaps once a question is answered. -/
inductive Stage (α : Type) : Type
  | ready (rest : Dialogue α)
  | awaiting (q : Query) (next : q.Answer → Dialogue α)

namespace Stage

/-- What the dialogue comes to on a source, if it goes on to its end. -/
def run (source : VersionSource) : Stage α → α
  | ready rest => rest.run source
  | awaiting q next => (next (source q)).run source

/-- How many steps are left. -/
def stepCount (source : VersionSource) : Stage α → Nat
  | ready rest => rest.stepCount source
  | awaiting q next => (next (source q)).stepCount source + 1

end Stage

/-! ### Dialogues that end at once -/

/-- The result of a dialogue that ends without a question or a poll. -/
def immediate? : Dialogue α → Option α
  | done a => some a
  | _ => none

theorem immediate?_eq_some_iff {d : Dialogue α} {a : α} : d.immediate? = some a ↔ d = done a := by
  cases d <;> simp [immediate?]

theorem immediate?_bind (d : Dialogue α) (f : α → Dialogue β) :
    (d >>= f).immediate? = d.immediate?.bind fun a => (f a).immediate? := by
  cases d <;> rfl

theorem immediate?_remembering (keeps : Query → Bool) (d : Dialogue α) :
    (d.remembering keeps .empty).immediate? = d.immediate? := by
  cases d <;> rfl

end DepSolver.Dialogue
