import DepSolver.Proofs.Search.Outcome

/-!
A search as a loop over a stack of decisions. A pass of the loop opens a decision about a project,
tries a candidate of the innermost decision, or closes that decision once it has none left. The loop
comes to what the search comes to.
-/

namespace DepSolver.Search

variable {source : VersionSource} {p : Parameters} {r r' : SearchRecord} {limit : Nat}

/-- A decision to which a search may return, with the state before it. -/
structure Frame where
  project : ProjectRoot
  untried : List Version
  tried : List Version
  before : SearchState

/-- Where a search stands between two passes, the innermost decision first. -/
inductive Position
  /-- The next project is to be decided. -/
  | onward (s : SearchState) (stack : List Frame)
  /-- The innermost decision is to be taken another way. -/
  | back (stack : List Frame)
  | finished (solved : Option SearchState)

def Position.stack : Position → List Frame
  | onward _ stack | back stack => stack
  | finished _ => []

/-- One pass of the loop. -/
def pass (p : Parameters) : Position → SearchM Position
  | .onward s stack => do
      checkpoint
      match ← nextAmong p none s.pending with
      | none => return .finished (some s)
      | some root =>
          match ← open? p s root with
          | .error c =>
              note c
              return .back stack
          | .ok candidates => return .back (⟨root, candidates, [], s⟩ :: stack)
  | .back [] => do
      checkpoint
      return .finished none
  | .back (⟨root, [], tried, s⟩ :: stack) => do
      checkpoint
      note (s.conflict p root (.candidatesExhausted tried))
      return .back stack
  | .back (⟨root, version :: untried, tried, s⟩ :: stack) => do
      checkpoint
      modify fun r => { r with attempts := r.attempts + 1 }
      match ← trySelect p s root version with
      | .error c =>
          note c
          return .back (⟨root, untried, tried ++ [version], s⟩ :: stack)
      | .ok next => return .onward next (⟨root, untried, tried ++ [version], s⟩ :: stack)
  | .finished solved => return .finished solved

/-- A number of passes. -/
def passes (p : Parameters) : Nat → Position → SearchM Position
  | 0, position => return position
  | n + 1, position => do passes p n (← pass p position)

/-- Where the loop begins. -/
def firstPosition (p : Parameters) : SearchM Position := do
  match ← meetAll p .empty (← rootDemands p) with
  | .error c =>
      note c
      return .finished none
  | .ok s => return .onward s []

/-- What is made of the position at the end of the loop. -/
def conclude (p : Parameters) : Position → SearchM Solution
  | .finished (some solved) => do return solved.toSolution p (← get).attempts
  | .finished none => do throw (.unsatisfiable (← get).toFailure)
  | _ => throw .limitReached

/-- The search by a number of passes. -/
def searchByPasses (p : Parameters) (n : Nat) : SearchM Solution := do
  conclude p (← passes p n (← firstPosition p))

/-! ### Runs of the loop -/

theorem passes_finished (n : Nat) (solved : Option SearchState) :
    outcome source (passes p n (.finished solved)) r = .ok (.finished solved, r) := by
  induction n with
  | zero => rfl
  | succ n ih => exact ih

theorem passes_add (m n : Nat) (position : Position) :
    outcome source (passes p (m + n) position) r =
      outcome source (passes p m position >>= passes p n) r := by
  induction m generalizing position r with
  | zero => simp [passes]
  | succ m ih =>
      rw [Nat.add_right_comm, passes, passes]
      simp only [outcome_bind]
      cases outcome source (pass p position) r with
      | error e => rfl
      | ok result =>
          dsimp only
          rw [ih, outcome_bind]

/-- Some number of passes comes to an outcome. -/
def LeadsTo (source : VersionSource) (p : Parameters) (position : Position) (r : SearchRecord)
    (o : Except SolveError (Position × SearchRecord)) : Prop :=
  ∃ n, outcome source (passes p n position) r = o

theorem LeadsTo.refl (position : Position) (r : SearchRecord) :
    LeadsTo source p position r (.ok (position, r)) :=
  ⟨0, rfl⟩

variable {position position' : Position} {o : Except SolveError (Position × SearchRecord)}

theorem LeadsTo.step (hpass : outcome source (pass p position) r = .ok (position', r'))
    (h : LeadsTo source p position' r' o) : LeadsTo source p position r o := by
  obtain ⟨n, hn⟩ := h
  refine ⟨n + 1, ?_⟩
  rw [passes, outcome_bind, hpass]
  exact hn

theorem LeadsTo.of_error {e : SolveError} (hpass : outcome source (pass p position) r = .error e) :
    LeadsTo source p position r (.error e) := by
  refine ⟨1, ?_⟩
  rw [passes, outcome_bind, hpass]

theorem LeadsTo.trans (h : LeadsTo source p position r (.ok (position', r')))
    (h' : LeadsTo source p position' r' o) : LeadsTo source p position r o := by
  obtain ⟨m, hm⟩ := h
  obtain ⟨n, hn⟩ := h'
  refine ⟨m + n, ?_⟩
  rw [passes_add, outcome_bind, hm]
  exact hn

/-! ### The loop in place of the recursion -/

/-- Where the loop stands once a branch of the search is done: at the end with what was found, or
back at the decision before. -/
def branchEnd (stack : List Frame) (close : SearchRecord → SearchRecord) :
    Except SolveError (Option SearchState × SearchRecord) →
      Except SolveError (Position × SearchRecord)
  | .ok (some solved, r) => .ok (.finished (some solved), r)
  | .ok (none, r) => .ok (.back stack, close r)
  | .error e => .error e

/-- A branch of a search ends the same way in the loop, unless it hits a limit. -/
def EndsAlike (source : VersionSource) (p : Parameters)
    (goOn : SearchState → SearchM (Option SearchState)) : Prop :=
  ∀ s stack r, outcome source (goOn s) r ≠ .error .limitReached →
    LeadsTo source p (.onward s stack) r (branchEnd stack id (outcome source (goOn s) r))

theorem outcome_pass_onward (source : VersionSource) (p : Parameters) (s : SearchState)
    (stack : List Frame) (r : SearchRecord) :
    outcome source (pass p (.onward s stack)) r =
      match outcome source (nextAmong p none s.pending) r with
      | .error e => .error e
      | .ok (none, r) => .ok (.finished (some s), r)
      | .ok (some root, r) =>
          match outcome source (open? p s root) r with
          | .error e => .error e
          | .ok (.error c, r) => .ok (.back stack, r.add c)
          | .ok (.ok candidates, r) => .ok (.back (⟨root, candidates, [], s⟩ :: stack), r) := by
  rw [pass]
  simp only [outcome_bind, outcome_checkpoint]
  rcases outcome source (nextAmong p none s.pending) r with e | ⟨_ | root, r₁⟩
  · rfl
  · rfl
  · dsimp only
    rw [outcome_bind]
    rcases outcome source (open? p s root) r₁ with e | ⟨c | candidates, r₂⟩ <;> rfl

theorem outcome_pass_try (source : VersionSource) (p : Parameters) (s : SearchState)
    (root : ProjectRoot) (version : Version) (untried tried : List Version) (stack : List Frame)
    (r : SearchRecord) :
    outcome source (pass p (.back (⟨root, version :: untried, tried, s⟩ :: stack))) r =
      match outcome source (trySelect p s root version) { r with attempts := r.attempts + 1 } with
      | .error e => .error e
      | .ok (.error c, r) =>
          .ok (.back (⟨root, untried, tried ++ [version], s⟩ :: stack), r.add c)
      | .ok (.ok next, r) =>
          .ok (.onward next (⟨root, untried, tried ++ [version], s⟩ :: stack), r) := by
  rw [pass]
  simp only [outcome_bind, outcome_checkpoint, outcome_modify]
  rcases outcome source (trySelect p s root version) { r with attempts := r.attempts + 1 } with
    e | ⟨c | next, r₁⟩ <;> rfl

private theorem leadsTo_attempt {goOn : SearchState → SearchM (Option SearchState)}
    (hgo : EndsAlike source p goOn) (s : SearchState) (root : ProjectRoot)
    (untried tried : List Version) (stack : List Frame) (r : SearchRecord)
    (hne : outcome source (attempt p goOn s root untried) r ≠ .error .limitReached) :
    LeadsTo source p (.back (⟨root, untried, tried, s⟩ :: stack)) r
      (branchEnd stack (·.add (s.conflict p root (.candidatesExhausted (tried ++ untried))))
        (outcome source (attempt p goOn s root untried) r)) := by
  induction untried generalizing tried r with
  | nil =>
      rw [List.append_nil]
      exact .step rfl (.refl _ _)
  | cons version untried ih =>
      have hpass := outcome_pass_try source p s root version untried tried stack r
      rw [List.append_cons]
      rw [attempt] at hne ⊢
      simp only [outcome_bind, outcome_checkpoint, outcome_modify] at hne ⊢
      cases htry : outcome source (trySelect p s root version)
          { r with attempts := r.attempts + 1 } with
      | error e =>
          rw [htry] at hpass
          exact .of_error hpass
      | ok result =>
          rw [htry] at hne hpass
          obtain ⟨c | next, r₁⟩ := result
          · exact .step hpass (ih _ _ hne)
          · refine .step hpass ?_
            have hbranch := hgo next (⟨root, untried, tried ++ [version], s⟩ :: stack) r₁
            dsimp only at hne ⊢
            rw [outcome_bind] at hne ⊢
            cases hgoes : outcome source (goOn next) r₁ with
            | error e =>
                rw [hgoes] at hne hbranch
                exact hbranch hne
            | ok found =>
                rw [hgoes] at hne hbranch
                obtain ⟨_ | solved, r₂⟩ := found
                · exact (hbranch (by simp)).trans (ih _ _ hne)
                · exact hbranch (by simp)

private theorem endsAlike_explore (source : VersionSource) (p : Parameters) (limit : Nat) :
    EndsAlike source p (explore p limit) := by
  induction limit using Nat.strongRecOn with
  | ind limit ih =>
      intro s stack r hne
      have hpass := outcome_pass_onward source p s stack r
      rw [explore.eq_def] at hne ⊢
      simp only [outcome_bind, outcome_checkpoint] at hne ⊢
      cases hnext : outcome source (nextAmong p none s.pending) r with
      | error e =>
          rw [hnext] at hpass
          exact .of_error hpass
      | ok result =>
          rw [hnext] at hne hpass
          obtain ⟨_ | root, r₁⟩ := result
          · exact .step hpass (.refl _ _)
          · cases limit with
            | zero => exact absurd rfl hne
            | succ limit =>
                dsimp only at hne hpass ⊢
                rw [outcome_bind] at hne ⊢
                cases hopen : outcome source (open? p s root) r₁ with
                | error e =>
                    rw [hopen] at hpass
                    exact .of_error hpass
                | ok opened =>
                    rw [hopen] at hne hpass
                    obtain ⟨c | candidates, r₂⟩ := opened
                    · exact .step hpass (.refl _ _)
                    · refine .step hpass ?_
                      dsimp only at hne ⊢
                      rw [outcome_bind] at hne ⊢
                      have hbranch := leadsTo_attempt (ih limit (Nat.lt_succ_self limit)) s root
                        candidates [] stack r₂
                      rcases houtcome : outcome source
                        (attempt p (explore p limit) s root candidates) r₂ with
                        e | ⟨_ | solved, r₃⟩
                      · rw [houtcome] at hne hbranch
                        exact hbranch hne
                      · rw [houtcome] at hbranch
                        exact hbranch (by simp)
                      · rw [houtcome] at hbranch
                        exact hbranch (by simp)

theorem LeadsTo.eventually {solved : Option SearchState}
    (h : LeadsTo source p position r (.ok (.finished solved, r'))) :
    ∃ n, ∀ k, outcome source (passes p (n + k) position) r = .ok (.finished solved, r') := by
  obtain ⟨n, hn⟩ := h
  refine ⟨n, fun k => ?_⟩
  rw [passes_add, outcome_bind, hn]
  exact passes_finished k solved

theorem LeadsTo.eventually_error {e : SolveError} (h : LeadsTo source p position r (.error e)) :
    ∃ n, ∀ k, outcome source (passes p (n + k) position) r = .error e := by
  obtain ⟨n, hn⟩ := h
  refine ⟨n, fun k => ?_⟩
  rw [passes_add, outcome_bind, hn]

/-- A search that hits no limit comes to what the loop comes to after enough passes. -/
theorem exists_outcome_searchByPasses
    (hne : outcome source (search p limit) r ≠ .error .limitReached) :
    ∃ n, ∀ k, outcome source (searchByPasses p (n + k)) r = outcome source (search p limit) r := by
  rw [search] at hne ⊢
  simp only [searchByPasses, firstPosition, outcome_bind] at hne ⊢
  cases hdemands : outcome source (rootDemands p) r with
  | error e => exact ⟨0, fun _ => rfl⟩
  | ok demanded =>
      obtain ⟨work, r₁⟩ := demanded
      rw [hdemands] at hne
      dsimp only at hne ⊢
      cases hmeet : outcome source (meetAll p .empty work) r₁ with
      | error e => exact ⟨0, fun _ => rfl⟩
      | ok met =>
          rw [hmeet] at hne
          obtain ⟨c | s, r₂⟩ := met
          · have hend : LeadsTo source p (.finished none) (r₂.add c)
                (.ok (.finished none, r₂.add c)) := .refl _ _
            obtain ⟨n, hn⟩ := hend.eventually
            refine ⟨n, fun k => ?_⟩
            simp only [outcome_bind, outcome_note, outcome_pure]
            rw [hn]
            rfl
          · simp only [outcome_bind, outcome_pure] at hne ⊢
            have hbranch := endsAlike_explore source p limit s [] r₂
            rcases houtcome : outcome source (explore p limit s) r₂ with e | ⟨_ | solved, r₃⟩
            · rw [houtcome] at hne hbranch
              have hfailed := hbranch fun heq => hne (by rw [Except.error.inj heq])
              obtain ⟨n, hn⟩ := hfailed.eventually_error
              exact ⟨n, fun k => by rw [hn]⟩
            · rw [houtcome] at hbranch
              have hback := (hbranch (by simp)).trans (.step rfl (.refl (.finished none) r₃))
              obtain ⟨n, hn⟩ := hback.eventually
              refine ⟨n, fun k => ?_⟩
              rw [hn]
              rfl
            · rw [houtcome] at hbranch
              obtain ⟨n, hn⟩ := (hbranch (by simp)).eventually
              refine ⟨n, fun k => ?_⟩
              rw [hn]
              rfl

end DepSolver.Search
