import DepSolver.Proofs.Lock
import DepSolver.Proofs.Operation
import DepSolver.Proofs.Search.Relock
import DepSolver.Solve

/-!
Locks that stay fresh. The lock of a solution is read back from its text, and it is admitted by the
inputs that were solved, so that a solve of the same inputs has nothing to do. A solve that is
forced finds the same lock again, and so has nothing to write.
-/

namespace DepSolver

/-- The projects and versions of a source are told by what is written of them. -/
structure VersionSource.IsWritable (source : VersionSource) : Prop where
  roots : ∀ path root, source.rootOf path = .ok root → root.IsWritable
  versions : ∀ root listed, source.versionsOf root = .ok listed →
    ∀ version ∈ listed, version.IsWritable

def Lock.HasWritableVersions (l : Lock) : Prop := ∀ x ∈ l.projects, x.version.IsWritable

theorem Project.solve_of_admitsLock {project : Project} {session : Session} {o : SolveOptions}
    {p : Parameters} {lock : Lock} {w : Surroundings}
    (hp : project.parameters w.disk = .ok p) (hlock : project.lock = some lock)
    (hadmits : p.admitsLock lock = true) (hforce : o.force = false)
    (hchange : o.changeAll = false) :
    (project.solve session o).run.run w = (.ok .skipped, { w with
      status := w.status ++ [⟨"Fresh", s!"{project.importRoot.path} lock is up to date"⟩] }) := by
  have hfresh : project.isFresh o { p with changeAll := o.changeAll } = true := by
    rw [isFresh, hforce, hchange, hlock]
    exact hadmits
  rw [solve, Operation.run_inspect_bind, hp, Operation.check_ok_bind]
  dsimp only
  rw [if_pos hfresh]
  rfl

namespace Search

variable {source : VersionSource} {p : Parameters} {s start : SearchState} {root : ProjectRoot}
  {version : Version} {order : List ProjectRoot} {limit : Nat}

/-! ### The lock of a solution -/

theorem exists_mem_of_lockedVersion? (h : p.lockedVersion? root = some version) :
    ∃ lock ∈ p.lock, ∃ x ∈ lock.projects, x.version = version := by
  rw [Parameters.lockedVersion?] at h
  split at h
  · cases h
  · obtain ⟨lock, hlock, hversion⟩ := Option.bind_eq_some_iff.mp h
    obtain ⟨x, hx, rfl⟩ := Option.map_eq_some_iff.mp hversion
    exact ⟨lock, hlock, x, (Lock.mem_of_project?_eq_some hx).1, rfl⟩

theorem IsSolvedAlong.isWritable (h : IsSolvedAlong source p limit start order s)
    (hsource : source.IsWritable) (hlocked : ∀ lock ∈ p.lock, lock.HasWritableVersions)
    (hversion : s.version? root = some version) : version.IsWritable := by
  obtain ⟨t, listed, hversions, hcandidate⟩ := h.exists_candidate hversion
  rcases mem_or_eq_of_mem_candidates hcandidate with hlisted | hpinned
  · exact hsource.versions root listed hversions version hlisted
  · obtain ⟨lock, hlock, x, hx, rfl⟩ := exists_mem_of_lockedVersion? hpinned
    exact hlocked lock hlock x hx

theorem exists_selected_of_mem_toLock {attempts : Nat} {x : LockedProject}
    (hx : x ∈ (s.toSolution p attempts).toLock.projects) :
    ∃ selection, s.selected.get? x.root = some selection ∧ x.version = selection.version ∧
      ∃ set : SortedSet String, x.packages = set.toList := by
  obtain ⟨root, hroot⟩ := Table.mem_values_iff.mp (Sorting.mem_sort.mp hx)
  change (s.toSolution p attempts).project? root = some x at hroot
  rw [SearchState.project?_toSolution] at hroot
  obtain ⟨selection, hselection, rfl⟩ := Option.map_eq_some_iff.mp hroot
  exact ⟨selection, hselection, rfl, _, rfl⟩

theorem IsSolvedAlong.toLock_isWritable (h : IsSolvedAlong source p limit start order s)
    (hsource : source.IsWritable) (hlocked : ∀ lock ∈ p.lock, lock.HasWritableVersions)
    (attempts : Nat) : (s.toSolution p attempts).toLock.IsWritable := by
  have hprojects : ∀ x ∈ (s.toSolution p attempts).toLock.projects, x.IsWritable := by
    intro x hx
    obtain ⟨selection, hselection, hversion, hpackages⟩ := exists_selected_of_mem_toLock hx
    obtain ⟨path, importer, -, hpath⟩ := h.isSolved.selected_iff.mp ⟨selection, hselection⟩
    exact ⟨hsource.roots path x.root hpath, h.isWritable hsource hlocked
      (hversion ▸ SearchState.version?_of_get? hselection), hpackages⟩
  exact ⟨hprojects, Sorting.sort_pairwise _⟩

theorem satisfiedBy_of_admits (hmerged : p.constraints.IsMerged) {more : Set Constraint}
    {c : MergedConstraint} (h : p.Admits root more version)
    (hc : p.constraints.effective? root = some c) : c.constraint.satisfiedBy version = true := by
  rw [Parameters.Admits] at h
  rw [ConstraintSet.effective?] at hc
  cases hoverride : p.constraints.overrides.get? root with
  | some override =>
      rw [hoverride] at h hc
      cases hc
      exact h
  | none =>
      rw [hoverride] at h hc
      -- The search heeds the contributions one by one, the check of a lock their fold.
      rw [← hmerged.interAll_contributions hc]
      exact h.1 c hc

/-- The inputs admit the lock of their solution. -/
theorem IsSolved.admitsLock (h : IsSolved source p limit s) (hmerged : p.constraints.IsMerged)
    (attempts : Nat) : p.admitsLock (s.toSolution p attempts).toLock = true := by
  rw [Parameters.admitsLock, Bool.and_eq_true]
  refine ⟨decide_eq_true rfl, List.all_eq_true.mpr fun x hx => ?_⟩
  obtain ⟨selection, hselection, hversion, -⟩ := exists_selected_of_mem_toLock hx
  have hadmits := SearchState.satisfiedBy_constraintOn.mp (h.sound.satisfied _ _ hselection)
  split
  · rename_i c hc
    rw [hversion]
    exact satisfiedBy_of_admits hmerged hadmits hc
  · rfl

/-! ### Solving again -/

private theorem toLock_eq {solution again : Solution} (hprojects :
    again.projects = solution.projects)
    (hdigest : again.inputsDigest = solution.inputsDigest) : again.toLock = solution.toLock := by
  rw [Solution.toLock, Solution.toLock, hprojects, hdigest]

/-- The lock of a solution is fresh when it is read back: a project that has it and the same inputs
is not solved again, and if it is, then to the same lock, which is not written again. -/
theorem isFresh_of_run_solve (hmerged : p.constraints.IsMerged) (hplain : source.HasPlainRoots)
    (hsource : source.IsWritable) (hlocked : ∀ lock ∈ p.lock, lock.HasWritableVersions)
    {solution : Solution} (h : (solve p limit).run source = .ok solution)
    (hrecord : LockRecord.parse solution.toLock.render = .ok (.ofLock solution.toLock)) :
    ∃ lock, Lock.parse solution.toLock.render = .ok lock ∧ p.admitsLock lock = true ∧
      (∀ (project : Project) (session : Session) (o : SolveOptions) (w : Surroundings),
        project.lock = some lock → project.parameters w.disk = .ok (p.withLock lock) →
        o.force = false → o.changeAll = false →
        ∃ status, (project.solve session o).run.run w = (.ok .skipped, { w with status })) ∧
      ∃ again, (solve (p.withLock lock) limit).run source = .ok again ∧
        LockDiff.between (some lock) again.toLock = .none ∧
        ∀ directory, Lock.update directory (some lock) again.toLock =
          pure ⟨directory.join Lock.fileName, .none, false⟩ := by
  obtain ⟨start, order, s, attempts, halong, rfl⟩ := isSolvedAlong_of_run_solve h
  have hsolved := halong.isSolved
  have hadmits := hsolved.admitsLock hmerged attempts
  have hparse := Lock.parse_render (halong.toLock_isWritable hsource hlocked attempts) hrecord
  obtain ⟨again, hagain, hprojects, -, hdigest, -⟩ :=
    hsolved.exists_run_solve_withLock hplain attempts
  have hsame : again.toLock = (s.toSolution p attempts).toLock := toLock_eq hprojects hdigest
  refine ⟨_, hparse, hadmits, fun project session o w hlock hp hforce hchange => ?_, again, hagain,
    ?_, fun directory => ?_⟩
  · exact ⟨_, Project.solve_of_admitsLock hp hlock hadmits hforce hchange⟩
  · rw [hsame, LockDiff.between_self]
  · rw [hsame, Lock.update_self]

private theorem chainSource_isWritable : chainSource.IsWritable where
  roots path root h := by
    change Except.ok (ProjectRoot.mk (if path = "a.io" then "a.io" else "b.io")) = .ok root at h
    cases h
    rw [ProjectRoot.IsWritable]
    split <;> decide
  versions root listed h version hversion := by
    have hbranch : ∀ name, name ≠ "" → (Version.branch name none).IsWritable := by
      intro name hname
      refine ⟨hname, fun r hr => ?_⟩
      cases hr
    by_cases hroot : root = ⟨"b.io"⟩
    · subst hroot
      cases h
      rcases List.mem_pair.mp hversion with rfl | rfl <;> exact hbranch _ (by decide)
    · rw [VersionSource.versionsOf, chainSource] at h
      · cases h
        rw [List.mem_singleton.mp hversion]
        exact hbranch _ (by decide)
      · exact hroot

/-- The lock of the chain is read back as it was written. -/
theorem isFresh_chainSolution :
    ∃ lock, Lock.parse chainSolution.toLock.render = .ok lock ∧
      (chainParameters ⟨"a.io"⟩ "main").admitsLock lock = true ∧
      (∀ (project : Project) (session : Session) (o : SolveOptions) (w : Surroundings),
        project.lock = some lock →
        project.parameters w.disk = .ok ((chainParameters ⟨"a.io"⟩ "main").withLock lock) →
        o.force = false → o.changeAll = false →
        ∃ status, (project.solve session o).run.run w = (.ok .skipped, { w with status })) ∧
      ∃ again, (solve ((chainParameters ⟨"a.io"⟩ "main").withLock lock) 2).run chainSource =
          .ok again ∧
        LockDiff.between (some lock) again.toLock = .none ∧
        ∀ directory, Lock.update directory (some lock) again.toLock =
          pure ⟨directory.join Lock.fileName, .none, false⟩ :=
  isFresh_of_run_solve (.inr ⟨_, _, rfl⟩) chainSource_hasPlainRoots chainSource_isWritable
    (by intro lock hlock; cases hlock)
    (show (solve (chainParameters ⟨"a.io"⟩ "main") 2).run chainSource = .ok chainSolution by
      decide +kernel)
    (by decide +kernel)

end Search

end DepSolver
