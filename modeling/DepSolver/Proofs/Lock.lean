import DepSolver.Lock.File
import DepSolver.Proofs.Except
import DepSolver.Proofs.ProjectRoot
import DepSolver.Proofs.SortedSet
import DepSolver.Proofs.Table
import DepSolver.Proofs.Text

/-!
Locks that are told by what is written of them. A project is read back from what is written of it
exactly if its root and its version are told by that; a lock of such projects is read back from its
text, and a lock that is read back has nothing new to be written.
-/

namespace DepSolver

/-! ### Versions as they are written -/

namespace Version

private theorem parseSemver_eq_ok {text name : String} {v : Semver}
    (h : parseSemver text = .ok (.semver v name none)) :
    name ≠ "" ∧ parseSemver name = .ok (.semver v name none) := by
  have hname : Text.trim text = name ∧ ∃ number,
      (Text.dropStart? ['v'] (Text.trim text).toList).getD (Text.trim text).toList = number ∧
        Semver.parseChars number = .ok v := by
    rw [parseSemver] at h
    generalize hparse : Semver.parseChars _ = parsed at h
    cases parsed with
    | error e => cases h
    | ok w =>
        cases h
        exact ⟨rfl, _, rfl, hparse⟩
  obtain ⟨rfl, number, hnumber, hparse⟩ := hname
  constructor
  · intro hempty
    rw [hempty] at hnumber
    subst hnumber
    cases hparse
  · rw [parseSemver, Text.trim_trim, hnumber, hparse]
    rfl

theorem exists_eq_semver_of_parseSemver {text : String} {w : Version}
    (h : parseSemver text = .ok w) : ∃ v name, w = .semver v name none := by
  rw [parseSemver] at h
  obtain ⟨v, -, hv⟩ := exists_of_map_eq_ok h
  exact ⟨v, _, hv.symm⟩

theorem ofTag_eq_of_parseSemver {name : String} {w : Version} (h : parseSemver name = .ok w) :
    ofTag name = w := by
  delta ofTag
  rw [h]

theorem ofTag_eq_tag {name : String} {e : Semver.ParseError} (h : parseSemver name = .error e) :
    ofTag name = .tag name none := by
  delta ofTag
  rw [h]

/-- The names of a version are not empty, and its tag reads as what it is. -/
def IsWritable : Version → Prop
  | .semver v name r =>
      (∃ text, parseSemver text = .ok (.semver v name none)) ∧ ∀ x ∈ r, x.text ≠ ""
  | .tag name r => name ≠ "" ∧ (∃ e, parseSemver name = .error e) ∧ ∀ x ∈ r, x.text ≠ ""
  | .branch name r => name ≠ "" ∧ ∀ x ∈ r, x.text ≠ ""
  | .revision r => r.text ≠ ""

end Version

/-! ### Projects as they are written -/

/-- The root has no slash at its end, which is dropped when it is read. -/
def ProjectRoot.IsWritable (root : ProjectRoot) : Prop := root.path.toList.getLast? ≠ some '/'

theorem ProjectRoot.ofString_cases (s : String) :
    s.toList = (ofString s).path.toList ++ ['/'] ∨
      ofString s = ⟨s⟩ ∧ (ofString s).IsWritable := by
  rw [ofString]
  cases hdrop : Text.dropEnding? ['/'] s.toList with
  | some before =>
      left
      rw [Text.dropEnding?_eq_some_iff.mp hdrop, String.toList_ofList]
  | none =>
      refine .inr ⟨rfl, fun hslash => ?_⟩
      obtain ⟨before, hpath⟩ := List.getLast?_eq_some_iff.mp hslash
      rw [Text.dropEnding?_eq_some_iff.mpr hpath] at hdrop
      cases hdrop

theorem ProjectRoot.ofString_path_iff {root : ProjectRoot} :
    ofString root.path = root ↔ root.IsWritable := by
  rcases ofString_cases root.path with hslash | ⟨heq, hwritable⟩
  · constructor
    · intro h
      rw [h] at hslash
      exact absurd (List.self_eq_append_right.mp hslash) (List.cons_ne_nil _ _)
    · intro h
      exact absurd (List.getLast?_eq_some_iff.mpr ⟨_, hslash⟩) h
  · rw [heq] at hwritable
    exact iff_of_true heq hwritable

theorem ProjectRoot.IsWritable.ofString_path {root : ProjectRoot} (h : root.IsWritable) :
    ofString root.path = root := ofString_path_iff.mpr h

structure LockedProject.IsWritable (x : LockedProject) : Prop where
  root : x.root.IsWritable
  version : x.version.IsWritable
  packages : ∃ set : SortedSet String, x.packages = set.toList

namespace LockEntry

theorem nonEmpty_eq_some {s : String} (h : s ≠ "") : nonEmpty s = some s := by
  rw [nonEmpty, if_neg]
  rwa [String.isEmpty_iff]

theorem ne_empty_of_nonEmpty {s t : String} (h : nonEmpty s = some t) : s ≠ "" := by
  rintro rfl
  cases h

theorem nonEmpty_elim_iff {r : Option Revision} :
    nonEmpty (r.elim "" Revision.text) = r.map Revision.text ↔ ∀ x ∈ r, x.text ≠ "" := by
  constructor
  · rintro h x rfl
    exact ne_empty_of_nonEmpty h
  · intro h
    cases r with
    | none => rfl
    | some x => exact nonEmpty_eq_some (h x rfl)

private theorem version?_eq_of_tag {e : LockEntry} {name : String} {r : Option Revision}
    (hbranch : e.branch = none) (hname : e.version = some name)
    (hrevision : e.revision = r.map Revision.text) :
    e.version? = .ok (r.elim (.ofTag name) (Version.ofTag name).paired) := by
  rw [version?, hbranch, hname, hrevision]
  cases r <;> rfl

private theorem version?_eq_of_branch {e : LockEntry} {name : String} {r : Option Revision}
    (hbranch : e.branch = some name) (hname : e.version = none)
    (hrevision : e.revision = r.map Revision.text) : e.version? = .ok (.branch name r) := by
  rw [version?, hbranch, hname, hrevision]
  cases r <;> rfl

theorem version?_ofProject {x : LockedProject} (h : x.version.IsWritable) :
    (ofProject x).version? = .ok x.version := by
  obtain ⟨root, version, packages, source⟩ := x
  cases version with
  | semver v name r =>
      obtain ⟨⟨text, htext⟩, hr⟩ := h
      obtain ⟨hname, hparse⟩ := Version.parseSemver_eq_ok htext
      have hversion : (ofProject ⟨root, .semver v name r, packages, source⟩).version? = _ :=
        version?_eq_of_tag rfl (nonEmpty_eq_some hname) (nonEmpty_elim_iff.mpr hr)
      rw [hversion, Version.ofTag_eq_of_parseSemver hparse]
      cases r <;> rfl
  | tag name r =>
      obtain ⟨hname, ⟨e, he⟩, hr⟩ := h
      have hversion : (ofProject ⟨root, .tag name r, packages, source⟩).version? = _ :=
        version?_eq_of_tag rfl (nonEmpty_eq_some hname) (nonEmpty_elim_iff.mpr hr)
      rw [hversion, Version.ofTag_eq_tag he]
      cases r <;> rfl
  | branch name r =>
      obtain ⟨hname, hr⟩ := h
      exact version?_eq_of_branch (nonEmpty_eq_some hname) rfl (nonEmpty_elim_iff.mpr hr)
  | revision r =>
      have hrevision : (ofProject ⟨root, .revision r, packages, source⟩).revision = some r.text :=
        nonEmpty_eq_some h
      rw [version?, hrevision]
      rfl

/-- What an entry says that is read as a version. -/
def Tells (e : LockEntry) : Version → Prop
  | .semver v name r =>
      (∃ text ∈ e.version, Version.parseSemver text = .ok (.semver v name none)) ∧
        e.revision = r.map Revision.text
  | .tag name r =>
      e.version = some name ∧ (∃ error, Version.parseSemver name = .error error) ∧
        e.revision = r.map Revision.text
  | .branch name r => e.branch = some name ∧ e.revision = r.map Revision.text
  | .revision r => e.revision = some r.text

private theorem tells_of_version? {e : LockEntry} {v : Version} (h : e.version? = .ok v) :
    e.Tells v := by
  obtain ⟨name, branch, tag, revision, source, packages⟩ := e
  rw [version?] at h
  dsimp only at h
  split at h
  · cases h
  · cases h
    cases revision <;> exact ⟨rfl, rfl⟩
  · rename_i text
    cases h
    cases hparse : Version.parseSemver text with
    | ok w =>
        obtain ⟨v, name, rfl⟩ := Version.exists_eq_semver_of_parseSemver hparse
        rw [Version.ofTag_eq_of_parseSemver hparse]
        cases revision <;> exact ⟨⟨text, rfl, hparse⟩, rfl⟩
    | error error =>
        rw [Version.ofTag_eq_tag hparse]
        cases revision <;> exact ⟨rfl, ⟨error, hparse⟩, rfl⟩
  · cases h
    rfl
  · cases h

theorem version?_ofProject_iff {x : LockedProject} :
    (ofProject x).version? = .ok x.version ↔ x.version.IsWritable := by
  refine ⟨fun h => ?_, version?_ofProject⟩
  have htells := tells_of_version? h
  obtain ⟨root, version, packages, source⟩ := x
  cases version with
  | semver v name r =>
      obtain ⟨⟨text, -, hparse⟩, hr⟩ := htells
      exact ⟨⟨text, hparse⟩, nonEmpty_elim_iff.mp hr⟩
  | tag name r =>
      obtain ⟨hname, herror, hr⟩ := htells
      exact ⟨ne_empty_of_nonEmpty hname, herror, nonEmpty_elim_iff.mp hr⟩
  | branch name r =>
      obtain ⟨hname, hr⟩ := htells
      exact ⟨ne_empty_of_nonEmpty hname, nonEmpty_elim_iff.mp hr⟩
  | revision r => exact ne_empty_of_nonEmpty htells

theorem toProject_ofProject {x : LockedProject} (h : x.IsWritable) :
    (ofProject x).toProject = .ok x := by
  obtain ⟨set, hset⟩ := h.packages
  have hordered : (SortedSet.ofList x.packages).toList = x.packages := by
    rw [hset, SortedSet.ofList_toList]
  rw [toProject, version?_ofProject h.version]
  change Except.ok { LockedProject.ofPackages (.ofString x.root.path) x.version x.packages with
    source := x.source } = _
  rw [h.root.ofString_path, LockedProject.ofPackages, hordered]

/-- No other project is read back. -/
theorem toProject_ofProject_iff {x : LockedProject} :
    (ofProject x).toProject = .ok x ↔ x.IsWritable := by
  refine ⟨fun h => ?_, toProject_ofProject⟩
  rw [toProject] at h
  obtain ⟨version, hversion, h⟩ := exists_of_bind_eq_ok h
  have hproject := Except.ok.inj h
  have hsame : version = x.version := congrArg LockedProject.version hproject
  exact ⟨ProjectRoot.ofString_path_iff.mp (congrArg LockedProject.root hproject),
    version?_ofProject_iff.mp (hversion.trans (congrArg _ hsame)),
    _, (congrArg LockedProject.packages hproject).symm⟩

end LockEntry

/-! ### Locks as they are written -/

namespace Lock

/-- A lock of projects that are told by what is written of them, in the order of their roots. -/
structure IsWritable (l : Lock) : Prop where
  projects : ∀ x ∈ l.projects, x.IsWritable
  sorted : l.projects.Pairwise fun x y => (compareOn LockedProject.root x y).isLE

theorem toLock_ofLock {l : Lock} (h : l.IsWritable) : (LockRecord.ofLock l).toLock = .ok l := by
  have hprojects : (l.projects.map LockEntry.ofProject).mapM (·.toProject) = .ok l.projects :=
    mapM_map_eq_ok fun x hx => LockEntry.toProject_ofProject (h.projects x hx)
  rw [LockRecord.toLock, LockRecord.ofLock, hprojects]
  change Except.ok (ofProjects l.inputsDigest l.projects) = _
  rw [ofProjects, Sorting.sort_eq_self h.sorted]

theorem parse_render {l : Lock} (h : l.IsWritable)
    (hrecord : LockRecord.parse l.render = .ok (.ofLock l)) : parse l.render = .ok l := by
  rw [parse, hrecord]
  exact toLock_ofLock h

/-- A lock of projects with any packages and any sources is read back from its text if its record
is, provided that no root has a slash at its end and each version is told by what is written of it.
What is read is the whole lock: the digest, the projects in their order, also those of one root, and
of each version its kind, its name and its revision. -/
theorem parse_render_ofProjects {digest : String} {projects : List LockedProject}
    (hbuilt : ∀ x ∈ projects, ∃ packages source,
      x = { LockedProject.ofPackages x.root x.version packages with source })
    (hroots : ∀ x ∈ projects, x.root.IsWritable)
    (hversions : ∀ x ∈ projects, x.version.IsWritable)
    (hrecord : LockRecord.parse (ofProjects digest projects).render =
      .ok (.ofLock (ofProjects digest projects))) :
    parse (ofProjects digest projects).render = .ok (ofProjects digest projects) := by
  refine parse_render ⟨fun x hx => ?_, Sorting.sort_pairwise projects⟩ hrecord
  have hmem : x ∈ projects := Sorting.mem_sort.mp hx
  obtain ⟨packages, source, hx⟩ := hbuilt x hmem
  exact ⟨hroots x hmem, hversions x hmem, .ofList packages, congrArg LockedProject.packages hx⟩

/-- Two locked projects with the same root. -/
def twinProjects : List LockedProject :=
  [{ LockedProject.ofPackages ⟨"a.io"⟩ (.semver (.release 1 2 0) "v1.2.0" (some ⟨"r1"⟩))
        ["b", ".", "b"] with source := some "c.io" },
    .ofPackages ⟨"a.io"⟩ (.tag "old" none) []]

theorem parse_render_twinProjects :
    parse (ofProjects "" twinProjects).render = .ok (ofProjects "" twinProjects) := by
  have hsemver : (Version.semver (.release 1 2 0) "v1.2.0" (some ⟨"r1"⟩)).IsWritable :=
    ⟨⟨"v1.2.0", by decide +kernel⟩, by simp⟩
  have htag : (Version.tag "old" none).IsWritable := ⟨by decide, ⟨_, rfl⟩, by simp⟩
  refine parse_render_ofProjects ?_ ?_ ?_ (by decide +kernel)
  · simp only [twinProjects, List.forall_mem_cons]
    exact ⟨⟨["b", ".", "b"], _, rfl⟩, ⟨[], _, rfl⟩, nofun⟩
  · simp only [twinProjects, List.forall_mem_cons, ProjectRoot.IsWritable]
    exact ⟨by decide, by decide, nofun⟩
  · simp only [twinProjects, List.forall_mem_cons]
    exact ⟨hsemver, htag, nofun⟩

end Lock

/-! ### Nothing new to be written -/

theorem LockDiff.between_self (l : Lock) : between (some l) l = .none := by
  have hkept : ((byRoot l).filter fun root _ => !(byRoot l).contains root).values = [] := by
    rw [Table.values, Table.filter, List.map_eq_nil_iff, List.filter_eq_nil_iff]
    rintro ⟨root, x⟩ hx
    have hcontains := Table.contains_iff.mpr ⟨x, Table.get?_eq_some_iff.mpr hx⟩
    simp [hcontains]
  change LockDiff.mk _ _ _ _ = ⟨false, [], [], []⟩
  congr 1
  · exact decide_eq_false (not_not_intro rfl)
  · rw [List.filterMap_eq_nil_iff]
    rintro ⟨root, x⟩ hx
    dsimp only
    rw [Table.get?_eq_some_iff.mpr hx]
    exact if_pos rfl

theorem Lock.update_self (directory : FilePath) (l : Lock) :
    update directory (some l) l = pure ⟨directory.join fileName, .none, false⟩ := by
  rw [update, LockDiff.between_self]
  rfl

end DepSolver
