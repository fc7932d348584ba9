import DepSolver.Proofs.Disk.Operation
import DepSolver.Proofs.Operation
import DepSolver.Proofs.PackageTree.Build
import DepSolver.Proofs.Search.Closure
import DepSolver.Solve

/-!
What a solve leaves on the disk when it fails. Until a solution is found nothing is written. The
lock is written first, then the Godeps file, and then the links, which never make a solve fail. So
a lock that cannot be written leaves at most its draft, but a Godeps file that cannot be written
leaves the new lock in place.
-/

namespace DepSolver

open Disk

variable {w w' : Surroundings}

theorem Lock.run_update {directory : FilePath} {old : Option Lock} {new : Lock}
    (h : (LockDiff.between old new).isEmpty = false) (w : Surroundings) :
    (update directory old new).run.run w =
      match (writeAtomic (directory.join fileName) new.render).run.run w.disk with
      | (.ok _, disk) =>
          (.ok ⟨directory.join fileName, .between old new, true⟩,
            ⟨disk, w.status ++ [⟨"Locking", s!"{new.projects.length} project(s)"⟩]⟩)
      | (.error e, disk) => (.error (.disk e.message), { w with disk }) := by
  rw [update, if_neg (by simp [h]), run_bind_eq, writeTo, Operation.run_onDisk]
  rcases (writeAtomic (directory.join fileName) new.render).run.run w.disk with
    ⟨_ | _, disk⟩ <;> rfl

theorem Godeps.run_exportTo (directory : FilePath) (importRoot : ProjectRoot) (s : Solution)
    (w : Surroundings) :
    (exportTo directory importRoot s).run.run w =
      match (writeAtomic ((directory.join ⟨"Godeps"⟩).join ⟨"Godeps.json"⟩)
        (render importRoot s)).run.run w.disk with
      | (.ok _, disk) =>
          (.ok ((directory.join ⟨"Godeps"⟩).join ⟨"Godeps.json"⟩), { w with disk })
      | (.error e, disk) => (.error (.disk e.message), { w with disk }) := by
  rw [exportTo, run_bind_eq, Operation.run_onDisk]
  rcases (writeAtomic ((directory.join ⟨"Godeps"⟩).join ⟨"Godeps.json"⟩)
    (render importRoot s)).run.run w.disk with ⟨_ | _, disk⟩ <;> rfl

theorem Lock.update_cases (directory : FilePath) (old : Option Lock) (new : Lock)
    (w : Surroundings) :
    (∃ e w', (update directory old new).run.run w = (.error e, w') ∧
      IsInterrupted (directory.join fileName) new.render w.disk w'.disk) ∨
    ∃ a w', (update directory old new).run.run w = (.ok a, w') ∧
      (w'.disk = w.disk ∨ IsReplaced (directory.join fileName) new.render w.disk w'.disk) := by
  cases hdiff : (LockDiff.between old new).isEmpty with
  | true =>
      rw [update, if_pos hdiff]
      exact .inr ⟨_, w, rfl, .inl rfl⟩
  | false =>
      rw [run_update hdiff]
      rcases writeAtomic_cases (directory.join fileName) new.render w.disk with
        ⟨e, disk, hrun, h⟩ | ⟨disk, hrun, h⟩
      · rw [hrun]
        exact .inl ⟨_, _, rfl, h⟩
      · rw [hrun]
        exact .inr ⟨_, _, rfl, .inr h⟩

namespace Project

variable {project : Project} {session : Session} {o : SolveOptions} {t t' : FileTree}
  {s : Solution}

def lockPath (project : Project) : FilePath := project.rootDir.join Lock.fileName

def godepsPath (project : Project) : FilePath :=
  (project.rootDir.join ⟨"Godeps"⟩).join ⟨"Godeps.json"⟩

/-- The search that a solve begins with finds a solution. -/
def Finds (project : Project) (session : Session) (o : SolveOptions) (t : FileTree)
    (s : Solution) : Prop :=
  ∃ p, project.parameters t = .ok p ∧
    (session.solve { p with changeAll := o.changeAll }).1 = .ok s

/-- What a solve that fails leaves on the disk. -/
inductive LeavesBehind (project : Project) (session : Session) (o : SolveOptions) (t : FileTree) :
    FileTree → Prop
  /-- Nothing was written. -/
  | nothing : LeavesBehind project session o t t
  /-- The lock of a solution could not be written. -/
  | draft {s : Solution} {t' : FileTree} : ¬ o.dryRun = true → project.Finds session o t s →
      IsInterrupted project.lockPath s.toLock.render t t' → LeavesBehind project session o t t'
  /-- The lock was written, unless it was written before, and the Godeps file could not be. -/
  | lock {s : Solution} {written t' : FileTree} : ¬ o.dryRun = true → project.Finds session o t s →
      o.mode = .standard → project.godepsCompat = true →
      (written = t ∨ IsReplaced project.lockPath s.toLock.render t written) →
      IsInterrupted project.godepsPath (Godeps.render project.importRoot s) written t' →
      LeavesBehind project session o t t'

private theorem run_linkAndWarn_bind {α : Type} (project : Project)
    (k : List VendorFailure → OperationM α) (w : Surroundings) :
    ∃ failures w', (project.linkAndWarn >>= k).run.run w = (k failures).run.run w' :=
  ⟨_, _, rfl⟩

/-- A failure to write what follows from a solution is one to write the lock or the Godeps file. -/
theorem leavesBehind_of_writeSolution {status : List StatusLine} {e : Failure}
    (hdry : ¬ o.dryRun = true) (hs : project.Finds session o t s)
    (h : (project.writeSolution o s).run.run ⟨t, status⟩ = (.error e, w')) :
    project.LeavesBehind session o t w'.disk := by
  rw [writeSolution, run_bind_eq] at h
  rcases Lock.update_cases project.rootDir project.lock s.toLock ⟨t, status⟩ with
    ⟨e', w₁, hrun, hleft⟩ | ⟨update, w₁, hrun, hwritten⟩
  · rw [hrun] at h
    cases h
    exact .draft hdry hs hleft
  rw [hrun] at h
  dsimp only at h
  cases hmode : o.mode with
  | legacyPassthrough =>
      rw [hmode] at h
      cases h
  | standard =>
      rw [hmode] at h
      dsimp only at h
      cases hcompat : project.godepsCompat with
      | false =>
          rw [hcompat, if_neg Bool.false_ne_true, pure_bind] at h
          obtain ⟨failures, w₂, hlink⟩ := run_linkAndWarn_bind project _ w₁
          rw [hlink] at h
          cases h
      | true =>
          rw [hcompat, if_pos rfl, run_bind_eq, Operation.run_map, Godeps.run_exportTo] at h
          rcases writeAtomic_cases project.godepsPath (Godeps.render project.importRoot s) w₁.disk
            with ⟨e', disk, hexport, hleft⟩ | ⟨disk, hexport, -⟩
          · rw [← godepsPath, hexport] at h
            cases h
            exact .lock hdry hs hmode hcompat hwritten hleft
          · rw [← godepsPath, hexport] at h
            dsimp only at h
            obtain ⟨failures, w₂, hlink⟩ := run_linkAndWarn_bind project _ { w₁ with disk }
            rw [hlink] at h
            cases h

private theorem run_solve_of_finds {p : Parameters} (hp : project.parameters w.disk = .ok p)
    (hfresh : project.isFresh o { p with changeAll := o.changeAll } = false)
    (hs : (session.solve { p with changeAll := o.changeAll }).1 = .ok s)
    (hdry : o.dryRun = false) :
    (project.solve session o).run.run w = (project.writeSolution o s).run.run
      { w with status := w.status ++ [⟨"Solving", project.rootDir.text⟩] } := by
  rw [solve, Operation.run_inspect_bind, hp, Operation.check_ok_bind]
  dsimp only
  rw [hfresh, if_neg Bool.false_ne_true, Operation.run_say_bind, hs, Except.mapError,
    Operation.check_ok_bind, hdry, if_neg Bool.false_ne_true]

theorem LeavesBehind.keeps (h : project.LeavesBehind session o t t')
    (hexport : o.mode = .standard → project.godepsCompat = false) :
    t.Keeps t' [] ∨ ∃ made draft, t.Keeps made [] ∧
      made.LeadsTo .file (draftOf project.lockPath) draft ∧ t.Keeps t' [draft] := by
  cases h with
  | nothing => exact .inl (.refl t [])
  | draft _ _ hlock => exact hlock.keeps
  | lock _ _ hmode hcompat =>
      rw [hexport hmode] at hcompat
      cases hcompat

private theorem leaves_of_run_solve {result : Except Failure SolveOutcome}
    (h : (project.solve session o).run.run w = (result, w')) :
    (o.dryRun = true → w'.disk = w.disk) ∧
      ∀ e, result = .error e → project.LeavesBehind session o w.disk w'.disk := by
  have hunchanged : w'.disk = w.disk → (o.dryRun = true → w'.disk = w.disk) ∧
      ∀ e, result = .error e → project.LeavesBehind session o w.disk w'.disk := by
    intro hdisk
    rw [hdisk]
    exact ⟨fun _ => rfl, fun _ _ => .nothing⟩
  rw [solve, Operation.run_inspect_bind] at h
  cases hp : project.parameters w.disk with
  | error e =>
      rw [hp] at h
      cases h
      exact hunchanged rfl
  | ok p =>
      rw [hp, Operation.check_ok_bind] at h
      dsimp only at h
      split at h
      · cases h
        exact hunchanged rfl
      rw [Operation.run_say_bind] at h
      cases hs : (session.solve { p with changeAll := o.changeAll }).1 with
      | error e =>
          rw [hs] at h
          cases h
          exact hunchanged rfl
      | ok s =>
          rw [hs, Except.mapError, Operation.check_ok_bind] at h
          split at h
          · cases h
            exact hunchanged rfl
          · rename_i hdry
            refine ⟨fun hdry' => absurd hdry' hdry, fun e he => ?_⟩
            subst he
            exact leavesBehind_of_writeSolution hdry ⟨p, hp, hs⟩ h

/-- A solve that is only to report leaves the disk as it is. One that fails leaves nothing new but
directories and a draft, and the lock if the Godeps file could not be written after it. -/
theorem leavesBehind_of_run_solve {result : Except Failure SolveOutcome}
    (h : (project.solve session o).run.run w = (result, w')) :
    (o.dryRun = true → w'.disk = w.disk) ∧
      ∀ e, result = .error e → project.LeavesBehind session o w.disk w'.disk ∧
        ((o.mode = .standard → project.godepsCompat = false) →
          w.disk.Keeps w'.disk [] ∨ ∃ made draft, w.disk.Keeps made [] ∧
            made.LeadsTo .file (draftOf project.lockPath) draft ∧
              w.disk.Keeps w'.disk [draft]) := by
  obtain ⟨hdry, hleft⟩ := leaves_of_run_solve h
  refine ⟨hdry, fun e he => ⟨hleft e he, ?_⟩⟩
  exact (hleft e he).keeps

/-! ### A Godeps file that cannot be written -/

/-- A disk with one source file, where a file has the name of the directory for Godeps files. -/
def occupiedDisk : FileTree :=
  (FileTree.ofMainFile (.text "package main\n")).insert ["Godeps"] (.file (.text ""))

/-- A project with sub-projects, of which it has none yet, that exports a Godeps file. -/
def exportingProject : Project :=
  .multiRepo ⟨⟨⟨"."⟩, ⟨"root.io"⟩, .empty, none, .standard⟩, ⟨true, false, [], [], true⟩, []⟩

private theorem isFlat_occupiedDisk :
    occupiedDisk.IsFlat [("Godeps", .text ""), ("main.go", .text "package main\n")] :=
  FileTree.isFlat_of_isName rfl (by decide)

/-- The session in which the project is solved. Its source is never asked. -/
def quietSession : Session := .start Search.chainSource (fun _ => 0) .never false

def plainOptions : SolveOptions := ⟨.standard, false, false, false⟩

private theorem exists_finds_exportingProject :
    ∃ p s, exportingProject.parameters occupiedDisk = .ok p ∧
      (quietSession.solve { p with changeAll := false }).1 = .ok s := by
  let package : Package := ⟨"root.io", "main", [], []⟩
  have hpackage : GoSource.packageOf [("Godeps", .text ""), ("main.go", .text "package main\n")]
      "root.io" = .ok (some package) := by decide
  have htree : exportingProject.packageTree occupiedDisk =
      .ok (((PackageTree.ofRoot "root.io").insertPackage package).strip []) := by
    change (PackageTree.build occupiedDisk ⟨"."⟩ "root.io" .standard).bind _ = _
    rw [PackageTree.build_of_isFlat isFlat_occupiedDisk hpackage]
    rfl
  have hfinds : (exportingProject.parameters occupiedDisk >>= fun p =>
      (quietSession.solve { p with changeAll := false }).1.mapError (·.toFailure)).isOk = true := by
    rw [parameters, htree]
    decide +kernel
  obtain ⟨s, hs⟩ := exists_eq_ok_iff_isOk.mpr hfinds
  obtain ⟨p, hp, hs⟩ := exists_of_bind_eq_ok hs
  cases hsolve : (quietSession.solve { p with changeAll := false }).1 with
  | error e =>
      rw [hsolve] at hs
      cases hs
  | ok s => exact ⟨p, s, hp, hsolve⟩

/-- The disk after the lock was written. -/
def lockedDisk (s : String) : FileTree :=
  ((occupiedDisk.insert [".kdep.lock.tmp"] (.file (.text s))).erase [".kdep.lock.tmp"]).insert
    ["kdep.lock"] (.file (.text s))

private theorem run_writeAtomic_lock (s : String) :
    (writeAtomic ⟨"./kdep.lock"⟩ s).run.run occupiedDisk = (.ok (), lockedDisk s) := by
  let drafted := occupiedDisk.insert [".kdep.lock.tmp"] (.file (.text s))
  have hparent : (ensureParent ⟨"./kdep.lock"⟩).run.run occupiedDisk = (.ok (), occupiedDisk) :=
    run_ensureParent_of_pathExists (by decide : _ = some ⟨"."⟩)
      (by rw [FileTree.pathExists, FileTree.lookup_here]; rfl)
  have hdraft : draftOf ⟨"./kdep.lock"⟩ = ⟨"./.kdep.lock.tmp"⟩ := by decide
  have hfree : occupiedDisk.resolve .file ⟨"./.kdep.lock.tmp"⟩ = .ok (.free [] ".kdep.lock.tmp") :=
    FileTree.resolve_free (by decide) (by decide) (by decide) rfl
  have hold : drafted.resolve .entry ⟨"./.kdep.lock.tmp"⟩ = .ok (.taken [".kdep.lock.tmp"]) :=
    FileTree.resolve_file (by decide) (by decide) (by decide)
      (FileTree.node?_insert_self (by simp))
  have hnew : drafted.resolve .entry ⟨"./kdep.lock"⟩ = .ok (.free [] "kdep.lock") :=
    FileTree.resolve_free (by decide) (by decide) (by decide) rfl
  rw [writeAtomic_eq, hdraft, run_bind_eq, hparent]
  dsimp only
  rw [run_bind_eq, run_write_of_free hfree]
  exact run_moveFile_of_free hold (FileTree.node?_insert_self (by simp)) hnew (by decide)
    (by decide)

private theorem run_writeAtomic_godeps (s godeps : String) :
    (writeAtomic ⟨"./Godeps/Godeps.json"⟩ godeps).run.run (lockedDisk s) =
      (.error .notDirectory, lockedDisk s) := by
  have hnode : (lockedDisk s).node? ["Godeps"] = some (.file (.text "")) := rfl
  have hlookup : (lockedDisk s).lookup ⟨"./Godeps"⟩ = .ok (["Godeps"], .file (.text "")) :=
    FileTree.lookup_name (by decide) (by decide) (by decide) hnode
  have hparent : (ensureParent ⟨"./Godeps/Godeps.json"⟩).run.run (lockedDisk s) =
      (.ok (), lockedDisk s) :=
    run_ensureParent_of_pathExists (by decide : _ = some ⟨"./Godeps"⟩)
      (by rw [FileTree.pathExists, hlookup]; rfl)
  have hdraft : draftOf ⟨"./Godeps/Godeps.json"⟩ = ⟨"./Godeps/.Godeps.json.tmp"⟩ := by
    decide
  have hsegments : FileTree.segmentsFor .file ⟨"./Godeps/.Godeps.json.tmp"⟩ =
      [".", "Godeps", ".Godeps.json.tmp"] := by decide
  have hrefused : (lockedDisk s).resolve .file ⟨"./Godeps/.Godeps.json.tmp"⟩ =
      .error .notDirectory := by
    have hroot := FileTree.hasDirectory_root (lockedDisk s)
    rw [FileTree.resolve_eq_walk (by decide), hsegments, FileTree.walk_here_cons hroot,
      FileTree.walk_name_cons hroot (by decide) (by decide) hnode (by simp),
      FileTree.walk_of_not_hasDirectory rfl]
  rw [writeAtomic_eq, hdraft, run_bind_eq, hparent]
  dsimp only
  rw [run_bind_eq, run_write_of_error hrefused]

theorem exists_run_solve_exportingProject :
    ∃ s status, (exportingProject.solve quietSession plainOptions).run.run ⟨occupiedDisk, []⟩ =
      (.error (.disk DiskError.notDirectory.message), ⟨lockedDisk s, status⟩) := by
  obtain ⟨p, s, hp, hs⟩ := exists_finds_exportingProject
  have hpath : exportingProject.rootDir.join Lock.fileName = ⟨"./kdep.lock"⟩ := by decide
  have hgodeps : (exportingProject.rootDir.join ⟨"Godeps"⟩).join ⟨"Godeps.json"⟩ =
      ⟨"./Godeps/Godeps.json"⟩ := by decide
  have hcompat : exportingProject.godepsCompat = true := rfl
  have hdiff : (LockDiff.between exportingProject.lock s.toLock).isEmpty = false := rfl
  have hfresh : exportingProject.isFresh plainOptions { p with changeAll := false } = false := rfl
  rw [run_solve_of_finds (w := ⟨occupiedDisk, []⟩) hp hfresh hs rfl, writeSolution, run_bind_eq,
    Lock.run_update hdiff, hpath, run_writeAtomic_lock]
  dsimp only [plainOptions]
  rw [if_pos hcompat, run_bind_eq, Operation.run_map, Godeps.run_exportTo, hgodeps,
    run_writeAtomic_godeps]
  exact ⟨_, _, rfl⟩

theorem leavesBehind_exportingProject :
    ∃ e w', (exportingProject.solve quietSession plainOptions).run.run ⟨occupiedDisk, []⟩ =
      (.error e, w') ∧
        exportingProject.LeavesBehind quietSession plainOptions occupiedDisk w'.disk := by
  obtain ⟨s, status, hrun⟩ := exists_run_solve_exportingProject
  exact ⟨_, _, hrun, ((leavesBehind_of_run_solve hrun).2 _ rfl).1⟩

/-- There is no lock on the disk, a solve fails, and there is one. -/
theorem node?_lock_of_run_solve :
    occupiedDisk.node? ["kdep.lock"] = none ∧
      ∃ e w' content,
        (exportingProject.solve quietSession plainOptions).run.run ⟨occupiedDisk, []⟩ =
          (.error e, w') ∧ w'.disk.node? ["kdep.lock"] = some (.file content) := by
  obtain ⟨s, status, hrun⟩ := exists_run_solve_exportingProject
  exact ⟨rfl, _, _, _, hrun, FileTree.node?_insert_self (by simp)⟩

end Project

end DepSolver
