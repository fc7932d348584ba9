import DepSolver.Search.Dialogue
import DepSolver.Search.State

/-!
The search for versions. It decides the pending projects one by one, tries the candidates of each in
order, and returns to the decision before when all of them fail. It is a dialogue, so its result
depends on the parameters and on the answers alone.
-/

namespace DepSolver

/-- What a search keeps when it goes back on a decision. -/
structure SearchRecord where
  conflicts : Table ProjectRoot (List ProjectConflict)
  /-- The number of versions that were tried. -/
  attempts : Nat
deriving DecidableEq

namespace SearchRecord

def empty : SearchRecord := ⟨.empty, 0⟩

/-- Record a conflict, unless it is known. -/
def add (r : SearchRecord) (c : ProjectConflict) : SearchRecord :=
  { r with
    conflicts := r.conflicts.update c.root [] fun l => if l.contains c then l else l ++ [c] }

def toFailure (r : SearchRecord) : SolveFailure := ⟨r.conflicts.values.flatten, r.attempts⟩

end SearchRecord

/-- A step of a search. -/
abbrev SearchM := StateT SearchRecord (ExceptT SolveError Dialogue)

namespace Search

variable {α : Type}

def lift (d : Dialogue α) : SearchM α := fun r => ExceptT.lift (d.bind fun a => .done (a, r))

/-- Put a question. -/
def ask (q : Query) : SearchM q.Answer := lift (.question q)

/-- Poll whether to go on. -/
def checkpoint : SearchM Unit := lift .checkpoint

/-- Record a conflict. -/
def note (c : ProjectConflict) : SearchM Unit := modify (·.add c)

/-- Ask for the versions of a project; none if the source does not know it. -/
def versions? (root : ProjectRoot) : SearchM (Option (List Version)) := do
  match ← ask (.versions root) with
  | .ok listed => return some listed
  | .error (.notFound _) => return none
  | .error e => throw (.source e)

/-- Ask for the project of an import path. -/
def rootOf (path : String) : SearchM ProjectRoot := do
  match ← ask (.root path) with
  | .ok root => return root
  | .error e => throw (.source e)

/-- Sort imports by the projects that own them. Imports of `owner` by itself are left out, and so
are those that no project is looked up for. -/
def groupImports (p : Parameters) (owner : Option ProjectRoot) :
    List String → SearchM (Table ProjectRoot (SortedSet String))
  | imports => go .empty imports
where
  go (grouped : Table ProjectRoot (SortedSet String)) :
      List String → SearchM (Table ProjectRoot (SortedSet String))
    | [] => return grouped
    | path :: rest => do
        if p.hides path then go grouped rest
        else
          let root ← rootOf path
          if owner = some root then go grouped rest
          else go (grouped.update root .empty (·.insert path)) rest

/-- The demands of a project for its imports. -/
def demands (p : Parameters) (importer : Option ProjectRoot) (imports : SortedSet String) :
    SearchM (List Demand) := do
  let grouped ← groupImports p importer imports.toList
  return grouped.entries.map fun (target, packages) => ⟨importer, target, packages⟩

/-- The demands of the project that is solved. -/
def rootDemands (p : Parameters) : SearchM (List Demand) := do
  let required := p.required.filter fun path => !p.ignored.ignores path
  let seeds := p.ownSeeds ++ required.toList.filter p.rootTree.contains
  match p.rootTree.reach seeds p.ignored true with
  | .ok reach =>
      let outside := required.filter fun path => !p.rootTree.contains path
      demands p none (outside.union reach.external)
  | .error (.broken path message) => throw (.brokenRootPackage path message)
  | .error e => throw (.brokenRootPackage e.path e.message)

/-- Meet demands in order, with those that arise from them, until none is left or one is a conflict.
At most `fuel` demands are met. -/
def expand (p : Parameters) :
    Nat → SearchState → List Demand → SearchM (Except ProjectConflict SearchState)
  | _, s, [] => return .ok s
  | 0, _, _ => throw .limitReached
  | fuel + 1, s, d :: work => do
      match s.meet p d with
      | .error c => return .error c
      | .ok (s, imports) =>
          let more ← demands p (some d.target) imports
          expand p fuel s (work ++ more)

/-- Meet all demands. -/
def meetAll (p : Parameters) (s : SearchState) (work : List Demand) :
    SearchM (Except ProjectConflict SearchState) :=
  expand p (work.length + s.room) s work

/-- Of two ways to go on, the better one: a locked project goes first, then the one with the fewest
versions; of two that are equal, the first stays. -/
def better (best : Option ((Bool × Nat) × ProjectRoot)) (key : Bool × Nat) (root : ProjectRoot) :
    Option ((Bool × Nat) × ProjectRoot) :=
  match best with
  | some (k, _) => if (compareLex (compareOn (·.1)) (compareOn (·.2)) key k).isLT then
      some (key, root) else best
  | none => some (key, root)

/-- The best of some projects to decide next. -/
def nextAmong (p : Parameters) (best : Option ((Bool × Nat) × ProjectRoot)) :
    List ProjectRoot → SearchM (Option ProjectRoot)
  | [] => return best.map (·.2)
  | root :: rest => do
      let listed ← versions? root
      let key := ((p.lockedVersion? root).isNone, listed.elim 0 List.length)
      nextAmong p (better best key root) rest

/-- The candidates for a project, or why there are none. -/
def open? (p : Parameters) (s : SearchState) (root : ProjectRoot) :
    SearchM (Except ProjectConflict (List Version)) := do
  if (s.constraintOn p root).isNothing then return .error (s.conflict p root .emptyIntersection)
  match ← versions? root with
  | none => return .error (s.conflict p root .projectNotFound)
  | some listed =>
      match s.candidates p root listed with
      | [] => return .error (s.conflict p root (.noMatchingVersion listed))
      | candidates => return .ok candidates

/-- Select a version, if its packages and its manifest can be had, and meet the demands that it
has. -/
def trySelect (p : Parameters) (s : SearchState) (root : ProjectRoot) (version : Version) :
    SearchM (Except ProjectConflict SearchState) := do
  match ← ask (.tree root version) with
  | .error (.notFound _) => return .error (s.conflict p root (.versionRejected version))
  | .error e => throw (.source e)
  | .ok tree =>
  match ← ask (.manifest root version) with
  | .error (.notFound _) => return .error (s.conflict p root (.versionRejected version))
  | .error e => throw (.source e)
  | .ok manifest =>
  match s.select p root version tree manifest with
  | .error c => return .error c
  | .ok (s, imports) => meetAll p s (← demands p (some root) imports)

/-- Try candidates in order until one leads to a solution. -/
def attempt (p : Parameters) (goOn : SearchState → SearchM (Option SearchState)) (s : SearchState)
    (root : ProjectRoot) : List Version → SearchM (Option SearchState)
  | [] => do
      checkpoint
      return none
  | version :: rest => do
      checkpoint
      modify fun r => { r with attempts := r.attempts + 1 }
      match ← trySelect p s root version with
      | .error c =>
          note c
          attempt p goOn s root rest
      | .ok next =>
          match ← goOn next with
          | some solved => return some solved
          | none => attempt p goOn s root rest

/-- Decide the pending projects, at most `limit` of them one after another. -/
def explore (p : Parameters) : Nat → SearchState → SearchM (Option SearchState)
  | limit, s => do
      checkpoint
      match ← nextAmong p none s.pending with
      | none => return some s
      | some root =>
          match limit with
          | 0 => throw .limitReached
          | limit + 1 =>
              match ← open? p s root with
              | .error c =>
                  note c
                  return none
              | .ok candidates =>
                  match ← attempt p (explore p limit) s root candidates with
                  | some solved => return some solved
                  | none =>
                      note (s.conflict p root (.candidatesExhausted candidates))
                      return none

/-- Find versions for all demands of the project that is solved. -/
def search (p : Parameters) (limit : Nat) : SearchM Solution := do
  let fail : SearchM Solution := do throw (.unsatisfiable (← get).toFailure)
  match ← meetAll p .empty (← rootDemands p) with
  | .error c =>
      note c
      fail
  | .ok s =>
      match ← explore p limit s with
      | some solved => return solved.toSolution p (← get).attempts
      | none =>
          checkpoint
          fail

/-- Whether a search recalls a successful answer. -/
def recalls : Query → Bool
  | .versions _ | .root _ => true
  | _ => false

/-- The search as a dialogue. -/
def solve (p : Parameters) (limit : Nat) : Dialogue (Except SolveError Solution) :=
  (((search p limit).run' .empty).run).remembering recalls .empty

end Search

end DepSolver
