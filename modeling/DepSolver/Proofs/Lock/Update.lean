import DepSolver.Proofs.Lock.Diff
import DepSolver.Proofs.Search.Occurrence
import DepSolver.Proofs.Solve

/-!
Locks that are not written. The lock of a solution is not written if the one that was read before it
is the same but for projects whose root is listed again after them. Where no root is listed twice
the two are the same, but a lock with such a root is read and stays as it is.
-/

namespace DepSolver

/-! ### Locks in the order of their roots -/

namespace Lock

variable {t : FileTree} {path : FilePath} {text : String} {l : Lock}

theorem sorted_of_parse (h : parse text = .ok l) :
    l.projects.Pairwise fun x y => (compareOn LockedProject.root x y).isLE := by
  obtain ⟨r, -, hlock⟩ := exists_of_bind_eq_ok h
  obtain ⟨projects, -, hl⟩ := exists_of_bind_eq_ok hlock
  cases hl
  exact Sorting.sort_pairwise projects

private theorem exists_of_ofPath (h : ofPath t path = .ok l) :
    ∃ text, t.readText path = .ok text ∧ parse text = .ok l := by
  rw [ofPath] at h
  split at h
  · rename_i text htext
    exact ⟨text, htext, h⟩
  · cases h

end Lock

theorem Search.isAscending_of_yields {p : Parameters} {limit : Nat} {t : List Exchange}
    {solution : Solution} (h : (solve p limit).Yields t (.ok solution)) :
    LockedProject.IsAscending solution.toLock.projects := by
  obtain ⟨-, s, attempts, -, -, rfl⟩ := isResult_of_yields h
  have hvalues : LockedProject.IsAscending (s.toSolution p attempts).projects.values := by
    apply LockedProject.isAscending_values
    intro root x hx
    change (s.toSolution p attempts).project? root = some x at hx
    rw [SearchState.project?_toSolution] at hx
    obtain ⟨selection, -, rfl⟩ := Option.map_eq_some_iff.mp hx
    rfl
  have hsorted : (s.toSolution p attempts).projects.values.Pairwise fun x y =>
      (compareOn LockedProject.root x y).isLE := by
    refine hvalues.imp fun {x y} hlt => ?_
    rw [compareOn, hlt]
    rfl
  rwa [Solution.toLock, Lock.ofProjects, Sorting.sort_eq_self hsorted]

/-! ### Locks that are left as they are -/

namespace Lock

variable {directory : FilePath} {old new : Lock} {w w' : Surroundings} {u : LockUpdate}

/-- The lock with the last project of each root. -/
def latest (l : Lock) : Lock := { l with projects := LockedProject.latest l.projects }

/-- An update of a lock goes well and does not write it. -/
def IsSkipped (directory : FilePath) (old new : Lock) (w : Surroundings) : Prop :=
  ∃ u w', (update directory (some old) new).run.run w = (.ok u, w') ∧ u.written = false

theorem run_update_unwritten (h : (update directory (some old) new).run.run w = (.ok u, w'))
    (hwritten : u.written = false) :
    (LockDiff.between (some old) new).isEmpty = true ∧ w' = w := by
  cases hdiff : (LockDiff.between (some old) new).isEmpty with
  | true =>
      rw [update, if_pos hdiff] at h
      cases h
      exact ⟨rfl, rfl⟩
  | false =>
      rw [run_update hdiff] at h
      generalize
        (Disk.writeAtomic (directory.join fileName) new.render).run.run w.disk = result at h
      obtain ⟨_ | _, disk⟩ := result
      · cases h
      · cases h
        cases hwritten

theorem isSkipped_iff_isEmpty :
    IsSkipped directory old new w ↔ (LockDiff.between (some old) new).isEmpty = true := by
  constructor
  · rintro ⟨u, w', hrun, hwritten⟩
    exact (run_update_unwritten hrun hwritten).1
  · intro hdiff
    refine ⟨⟨directory.join fileName, .between (some old) new, false⟩, w, ?_, rfl⟩
    rw [update, if_pos hdiff]
    rfl

theorem isSkipped_iff_latest_eq
    (hold : old.projects.Pairwise fun x y => (compareOn LockedProject.root x y).isLE)
    (hnew : LockedProject.IsAscending new.projects) :
    IsSkipped directory old new w ↔ old.latest = new := by
  obtain ⟨digest, projects⟩ := new
  rw [isSkipped_iff_isEmpty, LockDiff.isEmpty_between, LockedProject.latest_eq_self hnew.nodup,
    latest, Lock.mk.injEq]
  refine and_congr_right fun _ =>
    ⟨(LockedProject.isAscending_latest hold).eq_of_mem_iff hnew, ?_⟩
  rintro rfl x
  rfl

/-- A lock that is read from the file in a directory is left as it is, for the lock of a solution,
if the two are the same but for projects whose root is listed again after them; if it lists no root
twice, only if the two are the same. The file then says what it said before. -/
theorem isSkipped_iff_of_yields {p : Parameters} {limit : Nat} {t : List Exchange}
    {solution : Solution}
    (hold : ofPath w.disk (directory.join fileName) = .ok old)
    (hsolution : (Search.solve p limit).Yields t (.ok solution)) :
    (IsSkipped directory old solution.toLock w ↔ old.latest = solution.toLock) ∧
      ((old.projects.map (·.root)).Nodup →
        (IsSkipped directory old solution.toLock w ↔ old = solution.toLock)) ∧
      ∀ u w', (update directory (some old) solution.toLock).run.run w = (.ok u, w') →
        u.written = false → w' = w := by
  obtain ⟨text, -, hparse⟩ := exists_of_ofPath hold
  have hskipped : IsSkipped directory old solution.toLock w ↔ old.latest = solution.toLock :=
    isSkipped_iff_latest_eq (sorted_of_parse hparse) (Search.isAscending_of_yields hsolution)
  refine ⟨hskipped, fun hroots => ?_, fun u w' hrun hwritten => ?_⟩
  · rw [hskipped, latest, LockedProject.latest_eq_self hroots]
  · exact (run_update_unwritten hrun hwritten).2

/-! ### Locks of a chain of two projects -/

/-- A disk with a lock file. -/
def diskOfLock (l : Lock) : FileTree := FileTree.empty.insert ["kdep.lock"] (.file (.text l.render))

theorem ofPath_diskOfLock (l : Lock) :
    ofPath (diskOfLock l) ((⟨"."⟩ : FilePath).join fileName) = parse l.render := by
  have hlookup : (diskOfLock l).lookup ((⟨"."⟩ : FilePath).join fileName) =
      .ok (["kdep.lock"], .file (.text l.render)) :=
    FileTree.lookup_name (by decide +kernel) (by decide +kernel) (by decide +kernel)
      (FileTree.node?_insert_self (by simp))
  rw [ofPath, FileTree.readText, hlookup]
  rfl

open Search (chainParameters chainSource chainSolution)

/-- The lock of the chain, before which one of its projects is listed as it once was. -/
def chainLockAfterStale : Lock :=
  { chainSolution.toLock with
    projects := .ofPackages ⟨"a.io"⟩ (.branch "old" none) [] :: chainSolution.toLock.projects }

theorem exists_yields_chainSolution :
    ∃ t, (Search.solve (chainParameters ⟨"a.io"⟩ "main") 2).Yields t (.ok chainSolution) := by
  obtain ⟨t, hyields, -⟩ :=
    Dialogue.exists_yields_run chainSource (Search.solve (chainParameters ⟨"a.io"⟩ "main") 2)
  have hrun : (Search.solve (chainParameters ⟨"a.io"⟩ "main") 2).run chainSource =
      .ok chainSolution := by decide +kernel
  exact ⟨t, hrun ▸ hyields⟩

theorem isSkipped_chainSolution :
    ∃ t, (Search.solve (chainParameters ⟨"a.io"⟩ "main") 2).Yields t (.ok chainSolution) ∧
      ofPath (diskOfLock chainSolution.toLock) ((⟨"."⟩ : FilePath).join fileName) =
        .ok chainSolution.toLock ∧
      IsSkipped ⟨"."⟩ chainSolution.toLock chainSolution.toLock
        ⟨diskOfLock chainSolution.toLock, []⟩ := by
  obtain ⟨t, hyields⟩ := exists_yields_chainSolution
  have hold : ofPath (diskOfLock chainSolution.toLock) ((⟨"."⟩ : FilePath).join fileName) =
      .ok chainSolution.toLock := by
    rw [ofPath_diskOfLock]
    decide +kernel
  have hskipped := isSkipped_iff_of_yields (w := ⟨_, []⟩) hold hyields
  exact ⟨t, hyields, hold, (hskipped.2.1 (by decide)).mpr rfl⟩

/-- The file has a project as it once was, and stays so. -/
theorem isSkipped_chainLockAfterStale :
    ∃ t, (Search.solve (chainParameters ⟨"a.io"⟩ "main") 2).Yields t (.ok chainSolution) ∧
      ofPath (diskOfLock chainLockAfterStale) ((⟨"."⟩ : FilePath).join fileName) =
        .ok chainLockAfterStale ∧
      IsSkipped ⟨"."⟩ chainLockAfterStale chainSolution.toLock
        ⟨diskOfLock chainLockAfterStale, []⟩ ∧
      chainLockAfterStale ≠ chainSolution.toLock := by
  obtain ⟨t, hyields⟩ := exists_yields_chainSolution
  refine ⟨t, hyields, ?_, isSkipped_iff_isEmpty.mpr ?_, ?_⟩
  · rw [ofPath_diskOfLock]
    decide +kernel
  · decide +kernel
  · intro h
    exact absurd (congrArg (fun l => l.projects.length) h) (by decide +kernel)

end Lock

end DepSolver
