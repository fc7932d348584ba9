import DepSolver.Proofs.Search.Hint
import DepSolver.Proofs.Search.Occurrence
import DepSolver.Proofs.Search.Session
import DepSolver.Proofs.Search.Stack

/-!
Searches on a source in memory come to an end. None of the bounds in the search has a part in what
it comes to: the walk over a tree, the demands that are met one after another, and the passes over
the stack of decisions all end by themselves.
-/

namespace DepSolver

namespace Search

variable {source : VersionSource} {m : MemorySource} {p : Parameters} {s s' : SearchState}
  {d : Demand} {imports : SortedSet String} {work more : List Demand}
  {importer : Option ProjectRoot} {position position' : Position} {r r' : SearchRecord} {n : Nat}

/-! ### Demands -/

theorem IsWorkUnder.isWorkOf {imports : List String}
    (h : IsWorkUnder (.ofSource source) p importer imports work) :
    IsWorkOf source p importer imports work where
  importer_eq := h.importer_eq
  nonempty := h.nonempty
  length_le := h.length_le
  sound d hd path hpath := by
    obtain ⟨hmem, hhides, hother, hroot⟩ := h.sound d hd path hpath
    refine ⟨hmem, ⟨hhides, ?_⟩, hroot.symm⟩
    rintro root rfl howner
    obtain rfl : root = d.target := Except.ok.inj (howner.symm.trans hroot.symm)
    exact hother rfl
  complete path hpath hlook := by
    rcases h.complete path hpath hlook.1 with ⟨root, himporter, hroot⟩ | ⟨d, hd, hroot, hmem⟩
    · exact absurd hroot.symm (hlook.2 root himporter)
    · exact ⟨d, hd, hroot.symm, hmem⟩

theorem Occurs.isExplored (h : Occurs (.ofSource source) p s work) :
    IsExplored source p s work := by
  induction h with
  | start himports hwork => exact .start himports hwork.isWorkOf
  | meet _ hmeet hmore ih => exact ih.meet hmeet hmore.isWorkOf
  | select _ hpending hversions _ htree hmanifest hselect hwork ih =>
      exact ih.select hpending ⟨_, hversions.symm⟩ htree.symm hmanifest.symm hselect hwork.isWorkOf

theorem IsExplored.outcome_expand_eq (h : IsExplored source p s work) (extra : Nat)
    (r : SearchRecord) :
    outcome source (expand p (work.length + s.room + extra) s work) r =
      outcome source (meetAll p s work) r :=
  outcome_expand_add (h.outcome_meetAll_ne r) extra

theorem IsExplored.eq_nil_or_usesMore_of_demands (h : IsExplored source p s (d :: work))
    (hmeet : s.meet p d = .ok (s', imports))
    (hdemands : outcome source (demands p (some d.target) imports) r = .ok (more, r')) :
    more = [] ∨ UsesMore s s' d.target := by
  rcases @outcome_demands source p (some d.target) imports r with
    ⟨work', hok, hwork⟩ | ⟨path, -, e, -, -, herror⟩
  · rw [hok] at hdemands
    cases hdemands
    exact h.eq_nil_or_usesMore hmeet hwork
  · rw [herror] at hdemands
    cases hdemands

/-! ### Passes -/

/-- A position at which the loop of a search stands after some passes. -/
def IsVisited (source : VersionSource) (p : Parameters) (position : Position) : Prop :=
  ∃ n r, outcome source (firstPosition p >>= passes p n) .empty = .ok (position, r)

theorem IsVisited.isPlaced (h : IsVisited source p position) : IsPlaced source p position := by
  obtain ⟨n, r, hvisited⟩ := h
  obtain ⟨first, r₁, hfirst, hpasses⟩ := outcome_bind_eq_ok_iff.mp hvisited
  exact (isPlaced_of_outcome_firstPosition hfirst).1.run hpasses

theorem Position.weight_le_passLimit (hstack : position.stack = []) :
    position.weight m p ≤ m.passLimit p := by
  cases position with
  | onward s stack =>
      obtain rfl : stack = [] := hstack
      exact Nat.le_refl _
  | back stack =>
      obtain rfl : stack = [] := hstack
      exact Nat.succ_le_succ (Nat.zero_le _)
  | finished solved => exact Nat.zero_le _

theorem outcome_searchByPasses_add (hlimit : m.passLimit p ≤ n) (extra : Nat) :
    outcome m.answer (searchByPasses p (n + extra)) r =
      outcome m.answer (searchByPasses p n) r := by
  rw [searchByPasses, searchByPasses, outcome_bind, outcome_bind]
  cases hfirst : outcome m.answer (firstPosition p) r with
  | error e => rfl
  | ok result =>
      obtain ⟨first, r₁⟩ := result
      obtain ⟨hplaced, hstack⟩ := isPlaced_of_outcome_firstPosition hfirst
      dsimp only
      rw [outcome_bind, outcome_bind, passes_add, outcome_bind]
      cases hpasses : outcome m.answer (passes p n first) r₁ with
      | error e => rfl
      | ok result =>
          obtain ⟨last, r₂⟩ := result
          obtain ⟨solved, rfl⟩ := hplaced.exists_finished
            ((Position.weight_le_passLimit hstack).trans hlimit) hpasses
          dsimp only
          rw [passes_finished]

end Search

namespace MemorySource

open Search

variable (m : MemorySource) (p : Parameters)

theorem outcome_search_ne :
    outcome m.answer (search p (m.searchLimit p)) .empty ≠ .error .limitReached := by
  intro hlimit
  rcases @outcome_rootDemands m.answer p .empty with ⟨imports, work, hdemands, himports, hwork, -⟩ |
    ⟨path, message, herror, -⟩ | ⟨path, e, -, -, -, herror⟩
  · have hfirst := IsSound.start himports hwork
    have hne := hfirst.explored.outcome_meetAll_ne .empty
    have hspec := outcome_meetAll m.answer p .empty work .empty
    generalize hmeet : outcome m.answer (meetAll p .empty work) .empty = o at hne hspec
    cases hspec with
    | met hmeets =>
        rw [outcome_search_of_meetAll hdemands hmeet] at hlimit
        split at hlimit
        · cases hlimit
        · cases hlimit
        · rename_i e herror
          cases hlimit
          exact (hfirst.meets hmeets).outcome_explore_ne (fun t => IsSound.size_lt_searchLimit)
            (Nat.le_add_left _ _) .empty herror
    | conflict hmeets hconflict =>
        rw [search, outcome_bind, hdemands] at hlimit
        dsimp only at hlimit
        rw [outcome_bind, hmeet] at hlimit
        cases hlimit
    | unresolved hmeets hnext hpath hlook hroot =>
        rw [search, outcome_bind, hdemands] at hlimit
        dsimp only at hlimit
        rw [outcome_bind, hmeet] at hlimit
        cases hlimit
    | exhausted hmeets => exact hne rfl
  · rw [search, outcome_bind, herror] at hlimit
    cases hlimit
  · rw [search, outcome_bind, herror] at hlimit
    cases hlimit

theorem outcome_searchByPasses {n : Nat} (hlimit : m.passLimit p ≤ n) :
    outcome m.answer (searchByPasses p n) .empty =
      outcome m.answer (search p (m.searchLimit p)) .empty := by
  obtain ⟨k, hk⟩ := exists_outcome_searchByPasses (m.outcome_search_ne p)
  rw [← outcome_searchByPasses_add hlimit k, Nat.add_comm]
  exact hk n

/-- What it is for a search on a source in memory to come to an end. -/
structure Terminates : Prop where
  /-- With a signal that never fires, a session comes to what the search comes to. -/
  session : ((m.session .never).solve p).1 = m.solve p
  /-- The search has a result, and no bound that it was given keeps it from one. -/
  returns : m.solve p ≠ .error .limitReached
  /-- The loop over the stack has that result after a number of passes, and ever after. -/
  loop : ∀ n, m.passLimit p ≤ n →
    (outcome m.answer (searchByPasses p n) .empty).map (·.1) = m.solve p
  /-- No project is on the stack twice, and each of them owns a path that is mentioned. -/
  stack : ∀ position, IsVisited m.answer p position →
    (position.stack.map (·.project)).Nodup ∧
      position.stack.map (·.project) ⊆ (m.mentioned p).map m.rootOf
  /-- Going back takes a candidate or a decision from the stack. -/
  consumes : ∀ stack r position' r',
    outcome m.answer (pass p (.back stack)) r = .ok (position', r') → Consumes stack position'
  /-- With every pass until the end, less is left to try. -/
  lowers : ∀ position r position' r', IsVisited m.answer p position →
    outcome m.answer (pass p position) r = .ok (position', r') →
    (∀ solved, position ≠ .finished solved) → position'.weight m p < position.weight m p
  /-- No work is left when demands are met, so a greater bound makes no difference. -/
  empties : ∀ s work, Occurs (.ofSource m.answer) p s work → ∀ r extra,
    outcome m.answer (meetAll p s work) r ≠ .error .limitReached ∧
      outcome m.answer (expand p (work.length + s.room + extra) s work) r =
        outcome m.answer (meetAll p s work) r
  /-- A demand that is met adds no work, or its project comes to use more of its packages. -/
  enlarges : ∀ s d work s' imports r more r', Occurs (.ofSource m.answer) p s (d :: work) →
    s.meet p d = .ok (s', imports) →
    outcome m.answer (demands p (some d.target) imports) r = .ok (more, r') →
    more = [] ∨ UsesMore s s' d.target
  /-- No path is left when a tree is walked, so more steps make no difference. -/
  walks : ∀ (t : PackageTree) seeds ignored tests extra,
    t.visit ignored tests (seeds.length + t.importCount + extra) .empty (seeds.map (·, none)) =
      t.reach seeds ignored tests

theorem terminates_solve : m.Terminates p where
  session := (Session.isLasting_start m.answer m.searchLimit false).solve_fst
  returns hlimit := m.outcome_search_ne p (run_solve_eq_error_iff.mp hlimit)
  loop n hlimit := by
    rw [m.outcome_searchByPasses p hlimit]
    exact (run_solve p (m.searchLimit p)).symm
  stack position hvisited :=
    ⟨hvisited.isPlaced.isStack.nodup, hvisited.isPlaced.isStack.subset⟩
  consumes stack r position' r' hpass := (isPass_of_outcome hpass).consumes
  lowers position r position' r' hvisited hpass hunfinished :=
    hvisited.isPlaced.weight_lt (isPass_of_outcome hpass) hunfinished
  empties s work hoccurs r extra :=
    ⟨hoccurs.isExplored.outcome_meetAll_ne r, hoccurs.isExplored.outcome_expand_eq extra r⟩
  enlarges s d work s' imports r more r' hoccurs hmeet hdemands :=
    hoccurs.isExplored.eq_nil_or_usesMore_of_demands hmeet hdemands
  walks t seeds ignored tests extra := PackageTree.visit_eq_reach (Nat.le_add_right _ _)

end MemorySource

end DepSolver
