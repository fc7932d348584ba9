import DepSolver.Proofs.Lock
import Mathlib.Algebra.Order.BigOperators.Group.List
import Mathlib.Algebra.Order.Group.Nat
import Mathlib.Data.List.Forall2

/-!
Locks that are read and written again. What is read from an entry is told by what is written of it
exactly if the entry gives no empty text and its name does not end in two slashes; a lock that is
read comes back from its own text exactly if all its entries are such.
-/

namespace DepSolver

/-! ### Roots that are read -/

namespace ProjectRoot

theorem isWritable_ofString_iff {s : String} :
    (ofString s).IsWritable ↔ ¬ ['/', '/'] <:+ s.toList := by
  rcases ofString_cases s with hslash | ⟨heq, hwritable⟩
  · rw [hslash, IsWritable, Ne, List.getLast?_eq_some_iff, not_iff_not]
    constructor
    · rintro ⟨before, hpath⟩
      exact ⟨before, by rw [hpath, List.append_assoc]; rfl⟩
    · rintro ⟨before, hpath⟩
      refine ⟨before, (List.append_left_inj ['/']).mp ?_⟩
      rw [← hpath, List.append_assoc]
      rfl
  · refine iff_of_true hwritable ?_
    rintro ⟨before, hpath⟩
    rw [heq, IsWritable, ← hpath] at hwritable
    exact hwritable (by simp)

theorem length_ofString_path_lt {root : ProjectRoot} (h : ¬ root.IsWritable) :
    (ofString root.path).path.length < root.path.length := by
  rcases ofString_cases root.path with hslash | ⟨heq, hwritable⟩
  · rw [← String.length_toList, ← String.length_toList, hslash, List.length_append]
    exact Nat.lt_succ_self _
  · rw [heq] at hwritable
    exact absurd hwritable h

private theorem length_ofString_path_le (root : ProjectRoot) :
    (ofString root.path).path.length ≤ root.path.length := by
  by_cases h : root.IsWritable
  · rw [h.ofString_path]
  · exact (length_ofString_path_lt h).le

end ProjectRoot

/-! ### Entries that are read -/

theorem Version.ne_empty_of_parseSemver {text : String} {w : Version}
    (h : parseSemver text = .ok w) : text ≠ "" := by
  rintro rfl
  cases h

namespace LockEntry

variable {e : LockEntry} {x : LockedProject} {v : Version}

/-- An entry of which nothing is lost when it is read and written again: no text that it gives is
empty, and its name does not end in two slashes, of which one is dropped each time. -/
structure IsKept (e : LockEntry) : Prop where
  name : ¬ ['/', '/'] <:+ e.name.toList
  branch : e.branch ≠ some ""
  version : e.version ≠ some ""
  revision : e.revision ≠ some ""

theorem root_toProject (h : e.toProject = .ok x) : x.root = .ofString e.name := by
  obtain ⟨v, -, hx⟩ := exists_of_bind_eq_ok h
  cases hx
  rfl

private theorem version?_eq_of_toProject (h : e.toProject = .ok x) : e.version? = .ok x.version
    := by
  obtain ⟨v, hv, hx⟩ := exists_of_bind_eq_ok h
  cases hx
  exact hv

theorem isWritable_of_version?_iff (h : e.version? = .ok v) :
    v.IsWritable ↔ e.branch ≠ some "" ∧ e.version ≠ some "" ∧ e.revision ≠ some "" := by
  obtain ⟨name, branch, tag, revision, source, packages⟩ := e
  rw [version?] at h
  dsimp only at h ⊢
  split at h
  · cases h
  · rename_i b
    cases h
    cases revision <;> simp [Version.IsWritable, Version.paired]
  · rename_i text
    cases h
    cases hparse : Version.parseSemver text with
    | ok w =>
        obtain ⟨v, name, rfl⟩ := Version.exists_eq_semver_of_parseSemver hparse
        have htext : text ≠ "" := Version.ne_empty_of_parseSemver hparse
        have hreads : ∃ text, Version.parseSemver text = .ok (.semver v name none) := ⟨text, hparse⟩
        rw [Version.ofTag_eq_of_parseSemver hparse]
        cases revision <;> simp [Version.IsWritable, Version.paired, htext, hreads]
    | error error =>
        rw [Version.ofTag_eq_tag hparse]
        cases revision <;> simp [Version.IsWritable, Version.paired, hparse]
  · rename_i r
    cases h
    simp [Version.IsWritable]
  · cases h

theorem isWritable_of_toProject_iff (h : e.toProject = .ok x) : x.IsWritable ↔ e.IsKept := by
  have hroot : x.root.IsWritable ↔ ¬ ['/', '/'] <:+ e.name.toList := by
    rw [root_toProject h, ProjectRoot.isWritable_ofString_iff]
  have hversion := isWritable_of_version?_iff (version?_eq_of_toProject h)
  have hpackages : ∃ set : SortedSet String, x.packages = set.toList := by
    obtain ⟨v, -, hx⟩ := exists_of_bind_eq_ok h
    cases hx
    exact ⟨_, rfl⟩
  constructor
  · intro hx
    obtain ⟨hbranch, htag, hrevision⟩ := hversion.mp hx.version
    exact ⟨hroot.mp hx.root, hbranch, htag, hrevision⟩
  · intro he
    exact ⟨hroot.mpr he.name, hversion.mpr ⟨he.branch, he.version, he.revision⟩, hpackages⟩

end LockEntry

/-! ### Locks that are read -/

namespace Lock

variable {l : Lock} {projects read : List LockedProject}

theorem forall₂_of_mapM_toProject
    (h : (projects.map LockEntry.ofProject).mapM (·.toProject) = .ok read) :
    List.Forall₂ (fun x y => (LockEntry.ofProject x).toProject = .ok y) projects read := by
  have hpairs := forall₂_of_mapM_eq_ok h
  rwa [List.forall₂_map_left_iff] at hpairs

theorem map_root_of_mapM_toProject
    (h : (projects.map LockEntry.ofProject).mapM (·.toProject) = .ok read) :
    projects.map (fun x => ProjectRoot.ofString x.root.path) = read.map (·.root) := by
  rw [← List.forall₂_eq_eq_eq, List.forall₂_map_left_iff, List.forall₂_map_right_iff]
  exact (forall₂_of_mapM_toProject h).imp fun x y hread => (LockEntry.root_toProject hread).symm

/-- Reading shortens the roots that are not writable and lengthens none. So if the projects that are
read are those that were written, in some order, all their roots are writable. -/
theorem isWritable_root_of_perm
    (h : (projects.map LockEntry.ofProject).mapM (·.toProject) = .ok read)
    (hperm : read.Perm projects) : ∀ x ∈ projects, x.root.IsWritable := by
  have hlengths : projects.map (fun x => (ProjectRoot.ofString x.root.path).path.length) =
      read.map fun y => y.root.path.length := by
    simpa only [List.map_map, Function.comp_def] using
      congrArg (List.map fun root => root.path.length) (map_root_of_mapM_toProject h)
  by_contra hnot
  push Not at hnot
  obtain ⟨x, hx, hroot⟩ := hnot
  have hlt := List.sum_lt_sum (l := projects)
    (fun x => (ProjectRoot.ofString x.root.path).path.length) (fun x => x.root.path.length)
    (fun x _ => x.root.length_ofString_path_le) ⟨x, hx, ProjectRoot.length_ofString_path_lt hroot⟩
  rw [hlengths, (hperm.map _).sum_eq] at hlt
  exact lt_irrefl _ hlt

theorem toLock_ofLock_iff
    (hsorted : l.projects.Pairwise fun x y => (compareOn LockedProject.root x y).isLE) :
    (LockRecord.ofLock l).toLock = .ok l ↔ ∀ x ∈ l.projects, x.IsWritable := by
  refine ⟨fun h => ?_, fun h => toLock_ofLock ⟨h, hsorted⟩⟩
  obtain ⟨read, hread, h⟩ := exists_of_bind_eq_ok h
  have hsort : Sorting.sort (compareOn LockedProject.root) read = l.projects :=
    congrArg Lock.projects (Except.ok.inj h)
  have hwritable := isWritable_root_of_perm hread (hsort ▸ (Sorting.sort_perm _ read).symm)
  have hroots : l.projects.map (·.root) = read.map (·.root) := by
    rw [← map_root_of_mapM_toProject hread]
    exact List.map_congr_left fun x hx => (hwritable x hx).ofString_path.symm
  have hsame : read = l.projects := by
    rw [← hsort, eq_comm]
    apply Sorting.sort_eq_self
    have horder : (l.projects.map (·.root)).Pairwise fun a b => (compare a b).isLE :=
      List.pairwise_map.mpr hsorted
    rw [hroots] at horder
    exact List.pairwise_map.mp horder
  have hpairs := forall₂_of_mapM_toProject hread
  rw [hsame, List.forall₂_same] at hpairs
  exact fun x hx => LockEntry.toProject_ofProject_iff.mp (hpairs x hx)

theorem forall_isWritable_iff {entries : List LockEntry}
    (h : entries.mapM (·.toProject) = .ok read) :
    (∀ x ∈ read, x.IsWritable) ↔ ∀ e ∈ entries, e.IsKept := by
  have hpairs := forall₂_of_mapM_eq_ok h
  clear h
  induction hpairs with
  | nil => simp
  | cons hread _ ih =>
      rw [List.forall_mem_cons, List.forall_mem_cons, LockEntry.isWritable_of_toProject_iff hread]
      exact and_congr_right fun _ => ih

/-- A lock that is read from a text comes back from its own text, if its record does, exactly if no
entry of the text is one of which something is lost. -/
theorem parse_render_iff_isKept {text : String} {r : LockRecord}
    (hrecord : LockRecord.parse text = .ok r) (hlock : parse text = .ok l)
    (hwritten : LockRecord.parse l.render = .ok (.ofLock l)) :
    parse l.render = .ok l ↔ ∀ e ∈ r.projects, e.IsKept := by
  rw [parse, hrecord] at hlock
  obtain ⟨read, hread, hl⟩ := exists_of_bind_eq_ok (show r.toLock = .ok l from hlock)
  have hsorted : l = ofProjects r.inputsDigest read := (Except.ok.inj hl).symm
  subst hsorted
  rw [parse, hwritten]
  change (LockRecord.ofLock (ofProjects r.inputsDigest read)).toLock = _ ↔ _
  rw [toLock_ofLock_iff (Sorting.sort_pairwise read), ← forall_isWritable_iff hread]
  simp only [ofProjects, Sorting.mem_sort]

/-- A text with two entries for one project, one of which has a slash after its name. -/
def twinText : String :=
  "[[projects]]\nname = \"a.io/\"\nversion = \"v1.2.0 \"\nrevision = \"r1\"\n" ++
    "[[projects]]\nname = \"a.io\"\nbranch = \"main\"\nsource = \"\"\npackages = [\"b\", \"b\"]\n"

theorem parse_render_of_twinText :
    ∃ l, parse twinText = .ok l ∧ l.projects.length = 2 ∧ parse l.render = .ok l := by
  have hrecord : LockRecord.parse twinText = .ok ⟨"",
      [⟨"a.io/", none, some "v1.2.0 ", some "r1", none, []⟩,
        ⟨"a.io", some "main", none, none, some "", ["b", "b"]⟩]⟩ := by decide +kernel
  have hlock : parse twinText = .ok ⟨"",
      [⟨⟨"a.io"⟩, .semver (.release 1 2 0) "v1.2.0" (some ⟨"r1"⟩), [], none⟩,
        ⟨⟨"a.io"⟩, .branch "main" none, ["b"], some ""⟩]⟩ := by decide +kernel
  refine ⟨_, hlock, rfl, (parse_render_iff_isKept hrecord hlock (by decide +kernel)).mpr ?_⟩
  rw [List.forall_mem_cons, List.forall_mem_singleton]
  constructor
  · exact ⟨by decide, by decide, by decide, by decide⟩
  · exact ⟨by decide, by decide, by decide, by decide⟩

/-- The text of a lock whose only project is on the branch without a name. -/
def namelessText : String := "[[projects]]\nname = \"a.io\"\nbranch = \"\"\n"

/-- What is written of the lock has no branch, and so is not read again. -/
theorem parse_render_of_namelessText :
    ∃ l, parse namelessText = .ok l ∧ LockRecord.parse l.render = .ok (.ofLock l) ∧
      parse l.render = .error (.input "lock entry a.io has no version, branch or revision") := by
  refine ⟨⟨"", [⟨⟨"a.io"⟩, .branch "" none, [], none⟩]⟩, ?_, ?_, ?_⟩
  · decide +kernel
  · decide +kernel
  · decide +kernel

end Lock

end DepSolver
