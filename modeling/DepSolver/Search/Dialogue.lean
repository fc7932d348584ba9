import DepSolver.Source.Cache

/-!
Computations that put questions to a source. A dialogue does not say who answers: it can be run on a
source whose answers depend on the question alone, or carried out by a handler that may also break
it off.
-/

namespace DepSolver

/-- A computation that asks questions, and that from time to time polls whether to go on. -/
inductive Dialogue (α : Type) : Type
  | done (result : α)
  | poll (next : Dialogue α)
  | ask (q : Query) (next : q.Answer → Dialogue α)

namespace Dialogue

variable {α β : Type}

protected def bind : Dialogue α → (α → Dialogue β) → Dialogue β
  | done a, f => f a
  | poll next, f => poll (next.bind f)
  | ask q next, f => ask q fun answer => (next answer).bind f

instance : Monad Dialogue where
  pure := done
  bind := Dialogue.bind

/-- Put a question. -/
def question (q : Query) : Dialogue q.Answer := ask q done

/-- Poll whether to go on. -/
def checkpoint : Dialogue Unit := poll (done ())

/-- The result on a source, if the dialogue is never broken off. -/
def run (source : VersionSource) : Dialogue α → α
  | done a => a
  | poll next => next.run source
  | ask q next => (next (source q)).run source

/-- Someone who answers questions and may break a dialogue off: at a poll by answering `false`, and
at a question by giving no answer. -/
structure Handler (m : Type → Type) where
  poll : m Bool
  ask : (q : Query) → m (Option q.Answer)

/-- Carry a dialogue out. There is no result if it is broken off. -/
def carryOut {m : Type → Type} [Monad m] (h : Handler m) : Dialogue α → m (Option α)
  | done a => pure (some a)
  | poll next => do if ← h.poll then next.carryOut h else pure none
  | ask q next => do
      match ← h.ask q with
      | some answer => (next answer).carryOut h
      | none => pure none

/-- The same dialogue, which puts some questions only until it gets a successful answer, and from
then on recalls that answer. -/
def remembering (keeps : Query → Bool) (c : Cache) : Dialogue α → Dialogue α
  | done a => done a
  | poll next => poll (next.remembering keeps c)
  | ask q next =>
      match c.get? q with
      | some v => (next (.ok v)).remembering keeps c
      | none =>
          ask q fun answer =>
            (next answer).remembering keeps (if keeps q then c.keep q answer else c)

@[simp] theorem run_pure (source : VersionSource) (a : α) : run source (pure a) = a := rfl

@[simp] theorem run_bind (source : VersionSource) (d : Dialogue α) (f : α → Dialogue β) :
    run source (d >>= f) = run source (f (run source d)) := by
  show run source (d.bind f) = _
  induction d with
  | done a => rfl
  | poll next ih => exact ih
  | ask q next ih => exact ih (source q)

@[simp] theorem run_question (source : VersionSource) (q : Query) :
    run source (question q) = source q := rfl

@[simp] theorem run_checkpoint (source : VersionSource) : run source checkpoint = () := rfl

end Dialogue

end DepSolver
