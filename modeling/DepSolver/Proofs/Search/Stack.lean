import DepSolver.Proofs.Search.Limit
import DepSolver.Proofs.Search.Loop

/-!
The decisions on the stack. Each is about a project that was pending when it was opened, and all
decisions outside of it have selected theirs, so no project is on the stack twice. A candidate that
is left counts for more than all that can follow once it is taken, so every pass of the loop brings
its end closer.
-/

namespace DepSolver.Search

variable {source : VersionSource} {m : MemorySource} {p : Parameters} {s : SearchState}
  {root : ProjectRoot} {position position' : Position} {stack : List Frame}
  {r r' : SearchRecord} {n : Nat}

/-! ### Passes -/

/-- What a pass does to the position of a search: it ends with nothing pending, finds a project that
has no candidate or opens the decision about one; it ends with no decision left, closes one without
candidates, or takes a candidate that fails or leads on. -/
inductive IsPass (source : VersionSource) (p : Parameters) : Position → Position → Prop
  | done {s : SearchState} {stack : List Frame} (hdone : s.pending = []) :
      IsPass source p (.onward s stack) (.finished (some s))
  | barred {s : SearchState} {stack : List Frame} : IsPass source p (.onward s stack) (.back stack)
  | opened {s : SearchState} {stack : List Frame} {root : ProjectRoot} {listed : List Version}
      (hpending : root ∈ s.pending) (hversions : source.versionsOf root = .ok listed) :
      IsPass source p (.onward s stack)
        (.back (⟨root, s.candidates p root listed, [], s⟩ :: stack))
  | ended : IsPass source p (.back []) (.finished none)
  | closed {root : ProjectRoot} {tried : List Version} {s : SearchState} {stack : List Frame} :
      IsPass source p (.back (⟨root, [], tried, s⟩ :: stack)) (.back stack)
  | failed {root : ProjectRoot} {version : Version} {untried tried : List Version}
      {s : SearchState} {stack : List Frame} :
      IsPass source p (.back (⟨root, version :: untried, tried, s⟩ :: stack))
        (.back (⟨root, untried, tried ++ [version], s⟩ :: stack))
  | advanced {root : ProjectRoot} {version : Version} {untried tried : List Version}
      {s next : SearchState} {stack : List Frame}
      (hselects : Selects source p s root version next) :
      IsPass source p (.back (⟨root, version :: untried, tried, s⟩ :: stack))
        (.onward next (⟨root, untried, tried ++ [version], s⟩ :: stack))
  | rested {solved : Option SearchState} : IsPass source p (.finished solved) (.finished solved)

private theorem exists_versionsOf_of_outcome_open? {candidates : List Version}
    (h : outcome source (open? p s root) r = .ok (.ok candidates, r')) :
    ∃ listed, source.versionsOf root = .ok listed ∧ candidates = s.candidates p root listed := by
  rw [open?] at h
  split at h
  · cases h
  · rw [outcome_bind, outcome_versions?] at h
    cases hversions : source.versionsOf root with
    | error e =>
        rw [hversions] at h
        cases e <;> cases h
    | ok listed =>
        rw [hversions] at h
        dsimp only at h
        split at h
        · cases h
        · cases h
          exact ⟨listed, rfl, rfl⟩

private theorem isPass_of_outcome_onward
    (h : outcome source (pass p (.onward s stack)) r = .ok (position', r')) :
    IsPass source p (.onward s stack) position' := by
  rw [outcome_pass_onward] at h
  have hspec := @outcome_nextAmong source p none s.pending r
  generalize outcome source (nextAmong p none s.pending) r = o at h hspec
  cases hspec with
  | failed => cases h
  | chosen =>
      rcases @bestOf_none source p s.pending with ⟨hdone, hnone⟩ | ⟨root, hbest, hfirst⟩
      · rw [hnone] at h
        cases h
        exact .done hdone
      · rw [hbest] at h
        dsimp only [Option.map_some] at h
        split at h
        · cases h
        · cases h
          exact .barred
        · rename_i candidates r₁ hopen
          obtain ⟨listed, hversions, rfl⟩ := exists_versionsOf_of_outcome_open? hopen
          cases h
          exact .opened hfirst.mem hversions

theorem isPass_of_outcome (h : outcome source (pass p position) r = .ok (position', r')) :
    IsPass source p position position' := by
  match position with
  | .onward s stack => exact isPass_of_outcome_onward h
  | .finished solved =>
      cases h
      exact .rested
  | .back [] =>
      cases h
      exact .ended
  | .back (⟨root, [], tried, s⟩ :: stack) =>
      cases h
      exact .closed
  | .back (⟨root, version :: untried, tried, s⟩ :: stack) =>
      rw [outcome_pass_try] at h
      have hspec := outcome_trySelect source p s root version { r with attempts := r.attempts + 1 }
      generalize outcome source (trySelect p s root version)
        { r with attempts := r.attempts + 1 } = o at h hspec
      cases hspec with
      | conflict =>
          cases h
          exact .failed
      | selected hselects =>
          cases h
          exact .advanced hselects
      | failed => cases h
      | exhausted => cases h

/-- Going back takes a candidate from the innermost decision, or that decision if it has no
candidate left; with no decision left it ends the search. -/
inductive Consumes : List Frame → Position → Prop
  | candidate {f : Frame} {version : Version} {untried : List Version} {stack : List Frame}
      {position : Position} (huntried : f.untried = version :: untried)
      (hstack : position.stack = { f with untried, tried := f.tried ++ [version] } :: stack) :
      Consumes (f :: stack) position
  | decision {f : Frame} {stack : List Frame} (huntried : f.untried = []) :
      Consumes (f :: stack) (.back stack)
  | last : Consumes [] (.finished none)

theorem IsPass.consumes (h : IsPass source p (.back stack) position') :
    Consumes stack position' := by
  cases h with
  | ended => exact .last
  | closed => exact .decision rfl
  | failed => exact .candidate rfl rfl
  | advanced _ => exact .candidate rfl rfl

/-! ### The stack -/

/-- What holds of a decision on the stack. -/
structure Frame.IsOpen (source : VersionSource) (p : Parameters) (f : Frame) : Prop where
  sound : IsSound source p f.before []
  pending : f.project ∈ f.before.pending
  candidates : ∃ listed, source.versionsOf f.project = .ok listed ∧
    f.before.candidates p f.project listed = f.tried ++ f.untried

/-- What holds of a stack: the state before a decision has the selections of all decisions outside
of it. -/
structure IsStack (source : VersionSource) (p : Parameters) (stack : List Frame) : Prop where
  isOpen : ∀ f ∈ stack, f.IsOpen source p
  nested : stack.Pairwise fun inner outer => inner.before.version? outer.project ≠ none

theorem IsStack.nodup (h : IsStack source p stack) : (stack.map (·.project)).Nodup := by
  rw [List.nodup_iff_pairwise_ne, List.pairwise_map]
  refine h.nested.imp_of_mem ?_
  intro inner outer hinner _ hselected heq
  apply hselected
  rw [← heq, SearchState.version?,
    (SearchState.mem_pending_iff.mp (h.isOpen inner hinner).pending).2]
  rfl

theorem IsStack.subset (h : IsStack m.answer p stack) :
    stack.map (·.project) ⊆ (m.mentioned p).map m.rootOf := by
  intro root hroot
  obtain ⟨f, hf, rfl⟩ := List.mem_map.mp hroot
  have hopen := h.isOpen f hf
  exact hopen.sound.explored.keys_required_subset (SearchState.mem_pending_iff.mp hopen.pending).1

theorem IsStack.length_le (h : IsStack m.answer p stack) : stack.length ≤ m.searchLimit p := by
  have hle := (h.nodup.subperm h.subset).length_le
  rwa [List.length_map, List.length_map, m.length_mentioned] at hle

/-- Where a search can stand: the decisions on the stack are open, and the state from which it goes
on has the selections of all of them. -/
inductive IsPlaced (source : VersionSource) (p : Parameters) : Position → Prop
  | onward {s : SearchState} {stack : List Frame} (hsound : IsSound source p s [])
      (hstack : IsStack source p stack) (hselected : ∀ f ∈ stack, s.version? f.project ≠ none) :
      IsPlaced source p (.onward s stack)
  | back {stack : List Frame} (hstack : IsStack source p stack) : IsPlaced source p (.back stack)
  | finished {solved : Option SearchState} : IsPlaced source p (.finished solved)

theorem IsPlaced.isStack (h : IsPlaced source p position) : IsStack source p position.stack := by
  cases h with
  | onward _ hstack _ => exact hstack
  | back hstack => exact hstack
  | finished => exact ⟨by simp [Position.stack], by simp [Position.stack]⟩

section IsStack

variable {f : Frame} {version : Version} {untried : List Version} {next : SearchState}

theorem IsStack.push (h : IsStack source p stack) (hsound : IsSound source p s [])
    (hselected : ∀ f ∈ stack, s.version? f.project ≠ none) (hpending : root ∈ s.pending)
    {listed : List Version} (hversions : source.versionsOf root = .ok listed) :
    IsStack source p (⟨root, s.candidates p root listed, [], s⟩ :: stack) where
  isOpen := List.forall_mem_cons.mpr
    ⟨⟨hsound, hpending, listed, hversions, (List.nil_append _).symm⟩, h.isOpen⟩
  nested := List.pairwise_cons.mpr ⟨hselected, h.nested⟩

theorem IsStack.pop (h : IsStack source p (f :: stack)) : IsStack source p stack where
  isOpen := (List.forall_mem_cons.mp h.isOpen).2
  nested := (List.pairwise_cons.mp h.nested).2

theorem IsStack.take {tried : List Version}
    (h : IsStack source p (⟨root, version :: untried, tried, s⟩ :: stack)) :
    IsStack source p (⟨root, untried, tried ++ [version], s⟩ :: stack) := by
  obtain ⟨⟨hsound, hpending, listed, hversions, hcandidates⟩, hrest⟩ :=
    List.forall_mem_cons.mp h.isOpen
  refine ⟨List.forall_mem_cons.mpr ⟨⟨hsound, hpending, listed, hversions, ?_⟩, hrest⟩,
    List.pairwise_cons.mpr (List.pairwise_cons.mp h.nested)⟩
  rw [List.append_assoc]
  exact hcandidates

theorem IsPlaced.advance {tried : List Version}
    (h : IsStack source p (⟨root, version :: untried, tried, s⟩ :: stack))
    (hselects : Selects source p s root version next) :
    IsPlaced source p (.onward next (⟨root, untried, tried ++ [version], s⟩ :: stack)) := by
  obtain ⟨hsound, hpending, listed, hversions, hcandidates⟩ := h.isOpen _ List.mem_cons_self
  have hcandidate := mem_of_split hcandidates
  refine .onward (hsound.selects hpending hversions (satisfiedBy_of_mem_candidates hcandidate)
    hselects) h.take ?_
  intro f hf
  rw [hselects.version?_eq, Function.update_apply]
  split
  · simp
  · rename_i hne
    rcases List.mem_cons.mp hf with rfl | hf
    · exact absurd rfl hne
    · exact (List.pairwise_cons.mp h.nested).1 f hf

end IsStack

theorem IsPlaced.step (h : IsPlaced source p position)
    (hpass : IsPass source p position position') : IsPlaced source p position' := by
  cases hpass with
  | done _ => exact .finished
  | ended => exact .finished
  | rested => exact .finished
  | barred => exact .back h.isStack
  | opened hpending hversions =>
      cases h with
      | onward hsound hstack hselected =>
          exact .back (hstack.push hsound hselected hpending hversions)
  | closed => exact .back h.isStack.pop
  | failed => exact .back h.isStack.take
  | advanced hselects => exact .advance h.isStack hselects

theorem IsPlaced.run (h : IsPlaced source p position)
    (hpasses : outcome source (passes p n position) r = .ok (position', r')) :
    IsPlaced source p position' := by
  induction n generalizing position r with
  | zero =>
      cases hpasses
      exact h
  | succ n ih =>
      obtain ⟨mid, r₁, hpass, hrest⟩ := outcome_bind_eq_ok_iff.mp hpasses
      exact ih (h.step (isPass_of_outcome hpass)) hrest

theorem isPlaced_of_outcome_firstPosition
    (h : outcome source (firstPosition p) r = .ok (position, r')) :
    IsPlaced source p position ∧ position.stack = [] := by
  obtain ⟨work, r₁, hdemands, hrest⟩ := outcome_bind_eq_ok_iff.mp h
  obtain ⟨met, r₂, hmeet, hrest⟩ := outcome_bind_eq_ok_iff.mp hrest
  obtain ⟨hsound, -⟩ := isSound_of_outcome_rootDemands hdemands
  cases met with
  | error c =>
      cases hrest
      exact ⟨.finished, rfl⟩
  | ok start =>
      cases hrest
      obtain ⟨k, hmeets⟩ := meets_of_outcome_meetAll hmeet
      exact ⟨.onward (hsound.meets hmeets) ⟨by simp, .nil⟩ (by simp), rfl⟩

/-! ### The weight of a position -/

/-- The weight of a stack. An inner decision weighs so little that all candidates it can have are
outweighed by one candidate of the decision outside of it. -/
def stackWeight (m : MemorySource) (p : Parameters) : List Frame → Nat
  | [] => 0
  | f :: stack =>
      (2 * f.untried.length + 1) * m.branching ^ (m.searchLimit p - stack.length) +
        stackWeight m p stack

def Position.weight (m : MemorySource) (p : Parameters) : Position → Nat
  | onward _ stack =>
      m.branching ^ (m.searchLimit p + 1 - stack.length) + stackWeight m p stack + 1
  | back stack => stackWeight m p stack + 1
  | finished _ => 0

private theorem stackWeight_take {root : ProjectRoot} {version : Version} {untried tried :
    List Version}
    {s : SearchState} :
    stackWeight m p (⟨root, version :: untried, tried, s⟩ :: stack) =
      stackWeight m p (⟨root, untried, tried ++ [version], s⟩ :: stack) +
        2 * m.branching ^ (m.searchLimit p - stack.length) := by
  have hcount : 2 * (untried.length + 1) + 1 = 2 * untried.length + 1 + 2 := rfl
  rw [stackWeight, stackWeight, List.length_cons, hcount, Nat.add_mul]
  dsimp only
  omega

/-- Every pass before the end makes a position weigh less. -/
theorem IsPlaced.weight_lt (h : IsPlaced m.answer p position)
    (hpass : IsPass m.answer p position position')
    (hunfinished : ∀ solved, position ≠ .finished solved) :
    position'.weight m p < position.weight m p := by
  cases hpass with
  | rested => exact absurd rfl (hunfinished _)
  | done _ => exact Nat.succ_pos _
  | ended => exact Nat.succ_pos _
  | @barred s stack =>
      have hpos := m.branching_pow_pos (m.searchLimit p + 1 - stack.length)
      rw [Position.weight, Position.weight]
      omega
  | @opened s stack root listed hpending hversions =>
      have hlength := (h.step (.opened hpending hversions)).isStack.length_le
      rw [Position.stack, List.length_cons] at hlength
      have hlt := Nat.mul_lt_mul_of_pos_right (m.two_mul_length_candidates_lt (s := s) (p := p)
        hversions) (m.branching_pow_pos (m.searchLimit p - stack.length))
      rw [← Nat.pow_succ'] at hlt
      rw [Position.weight, Position.weight, stackWeight, Nat.succ_sub (Nat.le_of_succ_le hlength)]
      dsimp only
      omega
  | @closed root tried s stack =>
      have hpos := m.branching_pow_pos (m.searchLimit p - stack.length)
      rw [Position.weight, Position.weight, stackWeight, List.length_nil]
      omega
  | @failed root version untried tried s stack =>
      have hpos := m.branching_pow_pos (m.searchLimit p - stack.length)
      rw [Position.weight, Position.weight, stackWeight_take]
      omega
  | @advanced root version untried tried s next stack hselects =>
      have hpos := m.branching_pow_pos (m.searchLimit p - stack.length)
      rw [Position.weight, Position.weight, stackWeight_take, List.length_cons,
        Nat.add_sub_add_right]
      omega

theorem IsPlaced.exists_finished (h : IsPlaced m.answer p position)
    (hweight : position.weight m p ≤ n)
    (hpasses : outcome m.answer (passes p n position) r = .ok (position', r')) :
    ∃ solved, position' = .finished solved := by
  induction n generalizing position r with
  | zero =>
      cases hpasses
      cases h with
      | onward => cases hweight
      | back => cases hweight
      | finished => exact ⟨_, rfl⟩
  | succ n ih =>
      obtain ⟨mid, r₁, hpass, hrest⟩ := outcome_bind_eq_ok_iff.mp hpasses
      have hstep := isPass_of_outcome hpass
      refine ih (h.step hstep) ?_ hrest
      by_cases hfinished : ∃ solved, position = .finished solved
      · obtain ⟨solved, rfl⟩ := hfinished
        cases hstep
        exact Nat.zero_le n
      · have hlt := h.weight_lt hstep fun solved heq => hfinished ⟨solved, heq⟩
        omega

end DepSolver.Search
