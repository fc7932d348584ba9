import DepSolver.Proofs.Search.Occurrence
import DepSolver.Proofs.Search.Run

/-!
Why the trace of a failure can be believed. Whatever a conflict names as contributing to the
constraint on its project was declared, by the project that is solved or by a version that was
tried, and its reason follows from these constraints and from the answers that the search got.
-/

namespace DepSolver

variable {replies : Replies} {p : Parameters} {s s' : SearchState} {d : Demand}
  {root : ProjectRoot} {version : Version} {imports : SortedSet String}
  {work : List Demand} {c : ProjectConflict} {x : Contribution}

/-- The manifest of a version that was tried declares a constraint on a project. -/
def IsDeclared (replies : Replies) (root : ProjectRoot) (x : Contribution) : Prop :=
  ∃ (importer : ProjectRoot) (version : Version) (tree : PackageTree) (manifest : Manifest)
    (decl : Declaration), replies (.tree importer version) (.ok tree) ∧
    replies (.manifest importer version) (.ok manifest) ∧
    manifest.constraints.get? root = some decl ∧
    x = ⟨s!"{importer.path}@{version}", decl.constraint, decl.source⟩

/-- A constraint on a project is one of the project that is solved, or declared by a manifest. -/
def IsContributed (replies : Replies) (p : Parameters) (root : ProjectRoot) (x : Contribution) :
    Prop :=
  (∃ own, p.constraints.effective? root = some own ∧ x ∈ own.contributions) ∨
    IsDeclared replies root x

/-- A reason follows from the constraint on a project and from answers to questions about it. -/
def ConflictReason.IsGrounded (replies : Replies) (root : ProjectRoot) (constraint : Constraint) :
    ConflictReason → Prop
  | emptyIntersection => constraint.isNothing = true
  | noMatchingVersion available => replies (.versions root) (.ok available) ∧
      ∀ v ∈ available, constraint.satisfiedBy v = false
  | versionRejected v => constraint.satisfiedBy v = false ∨
      (∃ owner, replies (.tree root v) (.error (.notFound owner))) ∨
      ∃ owner, replies (.manifest root v) (.error (.notFound owner))
  | missingPackage path v => ∃ tree, replies (.tree root v) (.ok tree) ∧ tree.get? path = none
  | brokenPackage path v message =>
      ∃ tree, replies (.tree root v) (.ok tree) ∧ tree.get? path = some (.broken message)
  | projectNotFound => ∃ owner, replies (.versions root) (.error (.notFound owner))
  | candidatesExhausted tried => ∀ v ∈ tried, constraint.satisfiedBy v = true

/-- A conflict whose contributions were declared and whose reason follows from them. -/
structure ProjectConflict.IsJustified (replies : Replies) (p : Parameters) (c : ProjectConflict) :
    Prop where
  contributed : ∀ x ∈ c.contributions, IsContributed replies p c.root x
  grounded : c.reason.IsGrounded replies c.root (Contribution.interAll c.contributions)

namespace SearchState

/-- What a state holds of the selected projects is what was answered about them. -/
structure IsAnswered (replies : Replies) (s : SearchState) : Prop where
  selected : ∀ root x, s.selected.get? root = some x →
    replies (.tree root x.version) (.ok x.tree) ∧
      replies (.manifest root x.version) (.ok x.manifest)
  declared : ∀ root, ∀ x ∈ s.contributed root, IsDeclared replies root x

private theorem isAnswered_empty (replies : Replies) : empty.IsAnswered replies where
  selected _ _ hx := by cases hx
  declared _ _ hx := by cases hx

theorem IsAnswered.record (h : s.IsAnswered replies) (d : Demand) :
    (s.record d).IsAnswered replies := by
  refine ⟨h.selected, ?_⟩
  intro root x hx
  rcases mem_contributed_record hx with hold | ⟨rfl, importer, -, hdeclared⟩
  · exact h.declared root x hold
  · obtain ⟨selection, decl, hselected, hdecl, rfl⟩ := declared?_eq_some_iff.mp hdeclared
    obtain ⟨htree, hmanifest⟩ := h.selected importer selection hselected
    exact ⟨importer, _, _, _, decl, htree, hmanifest, hdecl, rfl⟩

theorem IsAnswered.put {x : Selection} (h : s.IsAnswered replies)
    (hx : replies (.tree root x.version) (.ok x.tree) ∧
      replies (.manifest root x.version) (.ok x.manifest)) : (s.put root x).IsAnswered replies := by
  refine ⟨?_, h.declared⟩
  intro root' y hy
  rw [get?_put] at hy
  split at hy
  · rename_i heq
    cases hy
    rw [heq]
    exact hx
  · exact h.selected root' y hy

theorem IsAnswered.meet (h : s.IsAnswered replies) (hmeet : s.meet p d = .ok (s', imports)) :
    s'.IsAnswered replies := by
  rcases meet_eq_ok hmeet with ⟨-, rfl, -⟩ | ⟨x, hextends⟩
  · exact h.record d
  · obtain ⟨reach, -, rfl, -⟩ := hextends.reached
    exact (h.record d).put (h.selected d.target x hextends.selected)

theorem IsAnswered.select {tree : PackageTree} {manifest : Manifest} (h : s.IsAnswered replies)
    (htree : replies (.tree root version) (.ok tree))
    (hmanifest : replies (.manifest root version) (.ok manifest))
    (hselect : s.select p root version tree manifest = .ok (s', imports)) :
    s'.IsAnswered replies := by
  obtain ⟨reach, -, rfl, -⟩ := select_eq_ok hselect
  exact h.put ⟨htree, hmanifest⟩

/-! ### Conflicts -/

theorem constraintOn_eq_interAll (hmerged : p.constraints.IsMerged) (s : SearchState)
    (root : ProjectRoot) :
    s.constraintOn p root = Contribution.interAll (s.contributionsTo p root) := by
  rw [constraintOn]
  split
  · rename_i c hc
    rw [contributionsTo, hc]
    exact (hmerged.interAll_eq (.inr hc)).symm
  · rfl

theorem IsAnswered.isContributed (h : s.IsAnswered replies)
    (hx : x ∈ s.contributionsTo p root) : IsContributed replies p root x := by
  rw [contributionsTo] at hx
  rw [IsContributed, ConstraintSet.effective?]
  split at hx
  · rename_i c hc
    rw [hc]
    exact .inl ⟨c, rfl, hx⟩
  · rename_i hc
    rw [hc]
    rcases List.mem_append.mp hx with hx | hx
    · left
      cases hc : p.constraints.dependencies.get? root with
      | none =>
          rw [hc] at hx
          cases hx
      | some own =>
          rw [hc] at hx
          exact ⟨own, rfl, hx⟩
    · exact .inr (h.declared root x hx)

/-- A conflict in a state is justified if its reason follows from the constraint in that state. -/
theorem IsAnswered.isJustified (h : s.IsAnswered replies) (hmerged : p.constraints.IsMerged)
    {reason : ConflictReason} (hreason : reason.IsGrounded replies root (s.constraintOn p root)) :
    (s.conflict p root reason).IsJustified replies p where
  contributed _ hx := h.isContributed hx
  grounded := by
    rw [constraintOn_eq_interAll hmerged] at hreason
    exact hreason

end SearchState

namespace Search

open SearchState

theorem Occurs.isAnswered (h : Occurs replies p s work) : s.IsAnswered replies := by
  induction h with
  | start _ _ => exact isAnswered_empty replies
  | meet _ hmeet _ ih => exact ih.meet hmeet
  | select _ _ _ _ htree hmanifest hselect _ ih => exact ih.select htree hmanifest hselect

theorem isGrounded_ofReachFailure {tree : PackageTree} {seeds : List String} {e : ReachFailure}
    {constraint : Constraint} (htree : replies (.tree root version) (.ok tree))
    (hreach : tree.reach seeds p.ignored false = .error e) :
    (ConflictReason.ofReachFailure version e).IsGrounded replies root constraint := by
  have hspec := tree.reach_isWalkResult seeds p.ignored false
  rw [hreach] at hspec
  cases e with
  | missing path importer => exact ⟨tree, htree, hspec.2.1⟩
  | broken path message => exact ⟨tree, htree, hspec.2⟩

private theorem isJustified_of_meet (h : s.IsAnswered replies) (hmerged : p.constraints.IsMerged)
    (hmeet : s.meet p d = .error c) : c.IsJustified replies p := by
  have hrecord := h.record d
  rw [SearchState.meet] at hmeet
  dsimp only at hmeet
  split at hmeet
  · rename_i hnothing
    cases hmeet
    exact hrecord.isJustified hmerged hnothing
  · split at hmeet
    · cases hmeet
    · rename_i x hx
      split at hmeet
      · rename_i hrejected
        cases hmeet
        rw [Bool.not_eq_true'] at hrejected
        exact hrecord.isJustified hmerged (.inl hrejected)
      · split at hmeet
        · cases hmeet
        · split at hmeet
          · rename_i e hreach
            cases hmeet
            exact hrecord.isJustified hmerged
              (isGrounded_ofReachFailure (h.selected d.target x hx).1 hreach)
          · cases hmeet

private theorem isJustified_of_select {tree : PackageTree} {manifest : Manifest}
    (h : s.IsAnswered replies) (hmerged : p.constraints.IsMerged)
    (htree : replies (.tree root version) (.ok tree))
    (hselect : s.select p root version tree manifest = .error c) : c.IsJustified replies p := by
  rw [SearchState.select] at hselect
  dsimp only at hselect
  split at hselect
  · rename_i e hreach
    cases hselect
    exact h.isJustified hmerged (isGrounded_ofReachFailure htree hreach)
  · cases hselect

private theorem forall_satisfiedBy_eq_false {listed : List Version}
    (hnone : s.candidates p root listed = []) :
    ∀ v ∈ listed, (s.constraintOn p root).satisfiedBy v = false := by
  rw [candidates] at hnone
  split at hnone
  · cases hnone
  · simpa using hnone

theorem ConflictsIn.isJustified (hmerged : p.constraints.IsMerged) (h : s.IsAnswered replies)
    (hconflict : ConflictsIn replies p s work c) : c.IsJustified replies p := by
  cases hconflict with
  | unmet hmeet => exact isJustified_of_meet h hmerged hmeet
  | unselected htree hselect => exact isJustified_of_select h hmerged htree hselect
  | treeless htree => exact h.isJustified hmerged (.inr (.inl ⟨_, htree⟩))
  | manifestless hmanifest => exact h.isJustified hmerged (.inr (.inr ⟨_, hmanifest⟩))
  | contradictory hnothing => exact h.isJustified hmerged hnothing
  | unlisted hversions => exact h.isJustified hmerged ⟨_, hversions⟩
  | unmatched hversions hnone =>
      exact h.isJustified hmerged ⟨hversions, forall_satisfiedBy_eq_false hnone⟩
  | exhausted hversions =>
      exact h.isJustified hmerged fun v hv => satisfiedBy_of_mem_candidates hv

/-- Every conflict in the trace of a failure is justified by the answers that led to it. -/
theorem isJustified_of_run_solve {source : VersionSource} {limit : Nat} {f : SolveFailure}
    (hmerged : p.constraints.IsMerged)
    (h : (solve p limit).run source = .error (.unsatisfiable f)) :
    ∃ t, (solve p limit).Yields t (.error (.unsatisfiable f)) ∧
      (∀ x ∈ t, x.answer = source x.query) ∧
      ∀ c ∈ f.conflicts, c.IsJustified (.ofTranscript t) p := by
  obtain ⟨t, hyields, hanswers⟩ := (solve p limit).exists_yields_run source
  rw [h] at hyields
  refine ⟨t, hyields, hanswers, ?_⟩
  intro c hc
  obtain ⟨s, work, hoccurs, hconflict⟩ := isResult_of_yields hyields f rfl c hc
  exact hconflict.isJustified hmerged hoccurs.isAnswered

/-- Of the two constraints on `b.io` that have no version in common, one is that of the project
that is solved and the other is declared by `a.io` at the version that was tried. -/
theorem chain_isJustified :
    ∃ t, (solve (chainParameters ⟨"b.io"⟩ "next") 2).Yields t (.error (.unsatisfiable
        ⟨[⟨⟨"a.io"⟩, .candidatesExhausted [.branch "main" none], []⟩,
          ⟨⟨"b.io"⟩, .emptyIntersection,
            [⟨"root.io", .branch "next", none⟩, ⟨"a.io@main", .branch "main", none⟩]⟩], 1⟩)) ∧
      (∀ x ∈ t, x.answer = chainSource x.query) ∧
      ProjectConflict.IsJustified (.ofTranscript t) (chainParameters ⟨"b.io"⟩ "next")
        ⟨⟨"b.io"⟩, .emptyIntersection,
          [⟨"root.io", .branch "next", none⟩, ⟨"a.io@main", .branch "main", none⟩]⟩ := by
  obtain ⟨t, hyields, hanswers, hjustified⟩ :=
    isJustified_of_run_solve (.inr ⟨"root.io", takingBranch ⟨"b.io"⟩ "next", rfl⟩)
      (show (solve (chainParameters ⟨"b.io"⟩ "next") 2).run chainSource = .error (.unsatisfiable
        ⟨[⟨⟨"a.io"⟩, .candidatesExhausted [.branch "main" none], []⟩,
          ⟨⟨"b.io"⟩, .emptyIntersection,
            [⟨"root.io", .branch "next", none⟩, ⟨"a.io@main", .branch "main", none⟩]⟩], 1⟩) by
        decide +kernel)
  exact ⟨t, hyields, hanswers, hjustified _ (by decide +kernel)⟩

end Search

end DepSolver
