import DepSolver.Search.Solver

/-!
Carrying searches out. A session has a source, keeps a log of the questions that reach it, may keep
the answers in a cache, and may be cancelled. Once a session is cancelled, no question reaches its
source, and a search in it is broken off at its next question or poll.
-/

namespace DepSolver

/-- When a session is cancelled. -/
inductive Cancellation
  | never
  | beforeStart
  /-- During the question of a number, counted from one. If `stalls` is set, that question is never
  answered. -/
  | during (number : Nat) (stalls : Bool)
deriving DecidableEq, Inhabited

namespace Cancellation

/-- Whether the session is cancelled from its start. -/
def isBeforeStart (c : Cancellation) : Bool := c = beforeStart

/-- Whether the session is cancelled during a question. -/
def fires (c : Cancellation) (number : Nat) : Bool :=
  match c with
  | during n _ => n = number
  | _ => false

/-- Whether the question during which the session is cancelled is never answered. -/
def stalls : Cancellation → Bool
  | during _ stalls => stalls
  | _ => false

end Cancellation

/-- The state of a session. -/
structure Session where
  source : VersionSource
  /-- The number of projects that a search may decide one after another. -/
  searchLimit : Parameters → Nat
  cancellation : Cancellation
  cancelled : Bool
  /-- The questions that reached the source, the latest first. -/
  log : List Query
  cache : Option Cache

namespace Session

/-- A session that begins, with an empty cache or with none. -/
def start (source : VersionSource) (searchLimit : Parameters → Nat) (cancellation : Cancellation)
    (cached : Bool) : Session :=
  ⟨source, searchLimit, cancellation, cancellation.isBeforeStart, [],
    if cached then some .empty else none⟩

/-- The answer to a question, and the session after it. There is no answer if the session is
cancelled before it or, if the question stalls, during it. -/
def put (s : Session) (q : Query) : Option q.Answer × Session :=
  if s.cancelled then (none, s)
  else
    match s.cache.bind (·.get? q) with
    | some v => (some (.ok v), s)
    | none =>
        let log := q :: s.log
        if s.cancellation.fires log.length then
          if s.cancellation.stalls then (none, { s with log, cancelled := true })
          else
            let answer := s.source q
            (some answer, { s with log, cancelled := true, cache := s.cache.map (·.keep q answer) })
        else
          let answer := s.source q
          (some answer, { s with log, cache := s.cache.map (·.keep q answer) })

/-- The session as the one who answers a dialogue. -/
def handler : Dialogue.Handler (StateM Session) where
  poll := fun s => (!s.cancelled, s)
  ask := fun q s => s.put q

/-- The number of versions of which the cache has the packages. -/
def treeCount (s : Session) : Nat := s.cache.elim 0 (·.treeCount)

/-- Solve in a session. -/
def solve (s : Session) (p : Parameters) : Except SolveError Solution × Session :=
  let (result, s) := ((Search.solve p (s.searchLimit p)).carryOut handler).run s
  (result.getD (.error .cancelled), s)

end Session

namespace MemorySource

/-- A number of projects that no search on a source in memory goes beyond: every project that it
decides owns an import that the parameters or a release mention. -/
def searchLimit (m : MemorySource) (p : Parameters) : Nat :=
  p.importCount + (m.projects.values.flatten.map (·.tree.importCount)).foldr (· + ·) 0

/-- A session on a source in memory. -/
def session (m : MemorySource) (cancellation : Cancellation) : Session :=
  .start m.answer m.searchLimit cancellation false

end MemorySource

end DepSolver
