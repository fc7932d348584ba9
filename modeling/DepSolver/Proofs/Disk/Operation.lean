import DepSolver.Disk.Operation
import DepSolver.Proofs.Disk.FileTree
import DepSolver.Proofs.Except

/-!
What operations leave on a disk. Making directories keeps all that stands there. A file that is
written by way of a draft is put in place at once or not at all; a write that fails leaves new
directories and perhaps the draft.
-/

namespace DepSolver

namespace Disk

open FileTree

variable {α β : Type} {t t' : FileTree} {p : FilePath}

/-! ### Making directories -/

theorem run_get_bind (f : FileTree → DiskM α) : (get >>= f).run.run t = (f t).run.run t := rfl

theorem run_inspect (f : FileTree → Except DiskError α) : (inspect f).run.run t = (f t, t) := by
  rw [inspect, run_get_bind]
  cases f t <;> rfl

variable {I : FileTree → Prop}

/-- An operation that keeps a property of the disk, also if it fails. -/
def Maintains (I : FileTree → Prop) (x : DiskM α) : Prop := ∀ t, I t → I (x.run.run t).2

theorem Maintains.pure (a : α) : Maintains I (Pure.pure a : DiskM α) := fun _ h => h

theorem Maintains.throw (e : DiskError) : Maintains I (MonadExcept.throw e : DiskM α) :=
  fun _ h => h

theorem Maintains.bind {x : DiskM α} {f : α → DiskM β} (hx : Maintains I x)
    (hf : ∀ a, Maintains I (f a)) : Maintains I (x >>= f) := by
  intro t h
  have hfirst := hx t h
  rw [run_bind_eq]
  rcases hrun : x.run.run t with ⟨result, t'⟩
  rw [hrun] at hfirst
  cases result with
  | error e => exact hfirst
  | ok a => exact hf a t' hfirst

theorem Maintains.get : Maintains I (MonadState.get : DiskM FileTree) := fun _ h => h

theorem Maintains.outcome {x : DiskM α} (hx : Maintains I x) : Maintains I (outcome x) := hx

/-- A property is kept if it stays where a directory is made at a path. -/
def AllowsDirectory (I : FileTree → Prop) (p : FilePath) : Prop :=
  ∀ t directory name, I t → t.resolve .entry p = .ok (.free directory name) →
    I (t.insert (directory ++ [name]) .directory)

private theorem makeDirectory_maintains (h : AllowsDirectory I p) : Maintains I (makeDirectory p)
    := by
  intro t ht
  rw [makeDirectory, run_bind_eq, run_inspect]
  rcases hfound : t.resolve .entry p with e | ⟨place⟩ | ⟨directory, name⟩
  · exact ht
  · exact ht
  · exact h t directory name ht hfound

private theorem tryDirectory_maintains (h : AllowsDirectory I p) : Maintains I (tryDirectory p)
    := by
  rw [tryDirectory]
  refine (makeDirectory_maintains h).outcome.bind fun result => ?_
  split
  · exact .pure false
  · exact .pure true
  · refine Maintains.get.bind fun t => ?_
    split
    · exact .pure false
    · exact .throw _
  · exact .throw _

private theorem makeDirectoriesUp_maintains {l : List FilePath} (h : ∀ p ∈ l, AllowsDirectory I p) :
    Maintains I (makeDirectoriesUp l) := by
  induction l with
  | nil => exact .pure ()
  | cons p above ih =>
      obtain ⟨hp, habove⟩ := List.forall_mem_cons.mp h
      rw [makeDirectoriesUp]
      refine (tryDirectory_maintains hp).bind fun isMissing => ?_
      split
      · refine (ih habove).bind fun _ => (tryDirectory_maintains hp).bind fun isMissing => ?_
        split
        · exact .throw _
        · exact .pure ()
      · exact .pure ()

theorem ensureDirectory_maintains
    (h : ∀ q ∈ p.ancestors (p.components.length + 1), AllowsDirectory I q) :
    Maintains I (ensureDirectory p) := by
  rw [ensureDirectory]
  refine Maintains.get.bind fun t => ?_
  split
  · exact makeDirectoriesUp_maintains h
  · exact .pure ()

private theorem allowsDirectory_keeps (t : FileTree) (p : FilePath) : AllowsDirectory (t.Keeps ·
    []) p :=
  fun _ _ _ h hfound => h.trans (keeps_insert_directory (node?_of_resolve_eq_free hfound))

theorem run_ensureDirectory_of_pathExists (h : t.pathExists p = true) :
    (ensureDirectory p).run.run t = (.ok (), t) := by
  rw [ensureDirectory, run_get_bind, h]
  rfl

/-! ### Making links -/

theorem makeLink_cases (target p : FilePath) (t : FileTree) :
    (∃ e, (makeLink target p).run.run t = (.error e, t)) ∨
      ∃ directory name, t.resolve .entry p = .ok (.free directory name) ∧
        (makeLink target p).run.run t = (.ok (), t.insert (directory ++ [name]) (.link target)) := by
  rw [makeLink]
  split
  · exact .inl ⟨_, rfl⟩
  cases pathError? target with
  | some e => exact .inl ⟨e, rfl⟩
  | none =>
      dsimp only
      rw [run_bind_eq, run_inspect]
      rcases hfound : t.resolve .entry p with e | ⟨place⟩ | ⟨directory, name⟩
      · exact .inl ⟨e, rfl⟩
      · exact .inl ⟨_, rfl⟩
      · dsimp only
        split
        · exact .inl ⟨_, rfl⟩
        · exact .inr ⟨directory, name, rfl, rfl⟩

theorem run_makeLink_of_free {target : FilePath} {directory : List String} {name : String}
    (hfree : t.resolve .entry p = .ok (.free directory name)) (hp : asDirectory p = false)
    (htarget : pathError? target = none) :
    (makeLink target p).run.run t = (.ok (), t.insert (directory ++ [name]) (.link target)) := by
  have hpath : pathError? p ≠ some .nulCharacter := by
    intro hnul
    rw [resolve, hnul] at hfree
    cases hfree
  rw [makeLink, if_neg hpath, htarget]
  dsimp only
  rw [run_bind_eq, run_inspect, hfree]
  dsimp only
  rw [hp]
  rfl

/-! ### Writing files -/

/-- Where a file is written before it is put in its place. -/
def draftOf (p : FilePath) : FilePath :=
  p.withFileName ("." ++ p.fileName?.getD "" ++ ".tmp")

private theorem write_cases (p : FilePath) (content : FileContent) (t : FileTree) :
    (∃ e, (write p content).run.run t = (.error e, t)) ∨
      ∃ place, t.LeadsTo .file p place ∧
        (write p content).run.run t = (.ok (), t.insert place (.file content)) := by
  rw [write, run_bind_eq, run_inspect]
  rcases hfound : t.resolve .file p with e | ⟨place⟩ | ⟨directory, name⟩
  · exact .inl ⟨e, rfl⟩
  · dsimp only
    rw [run_get_bind]
    split
    · exact .inl ⟨_, rfl⟩
    · exact .inr ⟨_, ⟨_, hfound, rfl⟩, rfl⟩
  · exact .inr ⟨_, ⟨_, hfound, rfl⟩, rfl⟩

private theorem moveFile_cases (source target : FilePath) (t : FileTree) :
    (∃ e, (moveFile source target).run.run t = (.error e, t)) ∨
      ∃ old new node, t.LeadsTo .entry source old ∧ t.node? old = some node ∧
        t.LeadsTo .entry target new ∧
        (moveFile source target).run.run t = (.ok (), (t.erase old).insert new node) := by
  rw [moveFile, run_bind_eq, run_inspect]
  rcases hold : t.resolve .entry source with e | ⟨old⟩ | ⟨directory, name⟩
  · exact .inl ⟨e, rfl⟩
  · dsimp only
    rw [run_get_bind]
    cases hnode : t.node? old with
    | none => exact .inl ⟨_, rfl⟩
    | some node =>
        dsimp only
        rw [run_bind_eq, run_inspect]
        rcases hnew : t.resolve .entry target with e | ⟨new⟩ | ⟨directory, name⟩
        · exact .inl ⟨e, rfl⟩
        · dsimp only
          split
          · exact .inl ⟨_, rfl⟩
          split
          · exact .inl ⟨_, rfl⟩
          rw [run_get_bind]
          split
          · exact .inl ⟨_, rfl⟩
          · exact .inr ⟨_, _, _, ⟨_, hold, rfl⟩, hnode, ⟨_, hnew, rfl⟩, rfl⟩
        · dsimp only
          split
          · exact .inl ⟨_, rfl⟩
          split
          · exact .inl ⟨_, rfl⟩
          · exact .inr ⟨_, _, _, ⟨_, hold, rfl⟩, hnode, ⟨_, hnew, rfl⟩, rfl⟩
  · exact .inl ⟨_, rfl⟩

theorem run_write_of_free {directory : List String} {name : String} {content : FileContent}
    (h : t.resolve .file p = .ok (.free directory name)) :
    (write p content).run.run t = (.ok (), t.insert (directory ++ [name]) (.file content)) := by
  rw [write, run_bind_eq, run_inspect, h]
  rfl

theorem run_write_of_error {content : FileContent} {e : DiskError}
    (h : t.resolve .file p = .error e) : (write p content).run.run t = (.error e, t) := by
  rw [write, run_bind_eq, run_inspect, h]

theorem run_moveFile_of_free {source target : FilePath} {old directory : List String}
    {name : String} {node : FileNode} (hold : t.resolve .entry source = .ok (.taken old))
    (hnode : t.node? old = some node)
    (hnew : t.resolve .entry target = .ok (.free directory name))
    (hname : endsInName target = true) (hdirectory : asDirectory target = false) :
    (moveFile source target).run.run t =
      (.ok (), (t.erase old).insert (directory ++ [name]) node) := by
  rw [moveFile, run_bind_eq, run_inspect, hold]
  dsimp only
  rw [run_get_bind, hnode]
  dsimp only
  rw [run_bind_eq, run_inspect, hnew]
  simp only [hname, hdirectory]
  rfl

/-- What a write that fails leaves: new directories, and the draft unless it could not be written
either. -/
def IsInterrupted (p : FilePath) (s : String) (t t' : FileTree) : Prop :=
  ∃ made, t.Keeps made [] ∧ (t' = made ∨
    ∃ place, made.LeadsTo .file (draftOf p) place ∧ t' = made.insert place (.file (.text s)))

/-- What a write leaves: new directories, the text in a draft, and what stands at the path of the
draft moved to the path of the file. -/
def IsReplaced (p : FilePath) (s : String) (t t' : FileTree) : Prop :=
  ∃ made draft old new node, t.Keeps made [] ∧ made.LeadsTo .file (draftOf p) draft ∧
    (made.insert draft (.file (.text s))).LeadsTo .entry (draftOf p) old ∧
    (made.insert draft (.file (.text s))).node? old = some node ∧
    (made.insert draft (.file (.text s))).LeadsTo .entry p new ∧
    t' = ((made.insert draft (.file (.text s))).erase old).insert new node

def ensureParent (p : FilePath) : DiskM Unit :=
  match p.parent? with
  | some parent => ensureDirectory parent
  | none => return

private theorem ensureParent_keeps (p : FilePath) (t : FileTree) :
    t.Keeps ((ensureParent p).run.run t).2 [] := by
  rw [ensureParent]
  split
  · exact ensureDirectory_maintains (fun q _ => allowsDirectory_keeps t q) t (Keeps.refl t [])
  · exact Keeps.refl t []

theorem run_ensureParent_of_pathExists {parent : FilePath} (hparent : p.parent? = some parent)
    (h : t.pathExists parent = true) : (ensureParent p).run.run t = (.ok (), t) := by
  rw [ensureParent, hparent]
  exact run_ensureDirectory_of_pathExists h

theorem writeAtomic_eq (p : FilePath) (s : String) :
    writeAtomic p s = (do
      ensureParent p
      write (draftOf p) (.text s)
      moveFile (draftOf p) p) := by
  rw [writeAtomic, ensureParent]
  cases p.parent? with
  | some parent => rfl
  | none =>
      rw [pure_bind]
      rfl

theorem writeAtomic_cases (p : FilePath) (s : String) (t : FileTree) :
    (∃ e t', (writeAtomic p s).run.run t = (.error e, t') ∧ IsInterrupted p s t t') ∨
      ∃ t', (writeAtomic p s).run.run t = (.ok (), t') ∧ IsReplaced p s t t' := by
  have hkeeps := ensureParent_keeps p t
  rw [writeAtomic_eq, run_bind_eq]
  rcases hrun : (ensureParent p).run.run t with ⟨result, made⟩
  rw [hrun] at hkeeps
  cases result with
  | error e => exact .inl ⟨e, made, rfl, made, hkeeps, .inl rfl⟩
  | ok _ =>
      dsimp only
      rw [run_bind_eq]
      rcases write_cases (draftOf p) (.text s) made with ⟨e, hwrite⟩ | ⟨draft, hdraft, hwrite⟩
      · rw [hwrite]
        exact .inl ⟨e, made, rfl, made, hkeeps, .inl rfl⟩
      rw [hwrite]
      rcases moveFile_cases (draftOf p) p (made.insert draft (.file (.text s))) with
        ⟨e, hmove⟩ | ⟨old, new, node, hold, hnode, hnew, hmove⟩
      · exact .inl ⟨e, _, hmove, made, hkeeps, .inr ⟨draft, hdraft, rfl⟩⟩
      · exact .inr ⟨_, hmove, made, draft, old, new, node, hkeeps, hdraft, hold, hnode, hnew, rfl⟩

/-- Apart from the place to which the draft leads, a write that fails keeps all that stands on the
disk. -/
theorem IsInterrupted.keeps {s : String} (h : IsInterrupted p s t t') :
    t.Keeps t' [] ∨ ∃ made draft, t.Keeps made [] ∧ made.LeadsTo .file (draftOf p) draft ∧
      t.Keeps t' [draft] := by
  obtain ⟨made, hmade, rfl | ⟨draft, hdraft, rfl⟩⟩ := h
  · exact .inl hmade
  · exact .inr ⟨made, draft, hmade, hdraft, hmade.trans (keeps_insert _ _ _)⟩

end Disk

end DepSolver
