import DepSolver.Lock
import DepSolver.Proofs.Table
import Mathlib.Data.List.Pairwise

/-!
Differences of locks as patches. A difference is taken between the last projects of each root. Where
no root is listed twice these are all, so that the difference makes the new lock of the old one, and
is empty only if the two are the same.
-/

namespace DepSolver

/-! ### The last projects of each root -/

namespace LockedProject

variable {l l' : List LockedProject} {x y : LockedProject}

/-- The projects of a list, of those of one root the last one. -/
def latest (l : List LockedProject) : List LockedProject := l.pwFilter fun x y => x.root ≠ y.root

private theorem mem_latest_cons :
    x ∈ latest (y :: l) ↔ x ∈ latest l ∨ x = y ∧ ∀ z ∈ latest l, y.root ≠ z.root := by
  by_cases h : ∀ z ∈ latest l, y.root ≠ z.root
  · rw [latest, List.pwFilter_cons_of_pos h, ← latest, List.mem_cons, and_iff_left h, or_comm]
  · rw [latest, List.pwFilter_cons_of_neg h, ← latest, or_iff_left fun hlast => h hlast.2]

private theorem eq_of_root_eq (hx : x ∈ latest l) (hy : y ∈ latest l) (hroot : x.root = y.root) :
    x = y :=
  List.inj_on_of_nodup_map (List.pairwise_map.mpr (List.pairwise_pwFilter l)) hx hy hroot

theorem latest_eq_self (h : (l.map (·.root)).Nodup) : latest l = l :=
  List.pwFilter_eq_self.mpr (List.pairwise_map.mp h)

/-- Projects in the order of their roots, each root once. -/
def IsAscending (l : List LockedProject) : Prop :=
  l.Pairwise fun x y => compare x.root y.root = .lt

theorem IsAscending.nodup (h : IsAscending l) : (l.map (·.root)).Nodup :=
  Sorting.nodup_of_pairwise_lt (List.pairwise_map.mpr h)

theorem IsAscending.eq_of_mem_iff (h : IsAscending l) (h' : IsAscending l')
    (hmem : ∀ x, x ∈ l ↔ x ∈ l') : l = l' :=
  @Sorting.eq_of_mem_iff _ (compareOn root) _ _ _ h h' hmem

theorem isAscending_of_ne (hsorted : l.Pairwise fun x y => (compareOn root x y).isLE)
    (hne : l.Pairwise fun x y => x.root ≠ y.root) : IsAscending l :=
  Sorting.pairwise_lt_of_ne hsorted hne

theorem isAscending_sort (hnodup : (l.map (·.root)).Nodup) :
    IsAscending (Sorting.sort (compareOn root) l) :=
  isAscending_of_ne (Sorting.sort_pairwise l) (List.pairwise_map.mp
    (((Sorting.sort_perm _ l).map _).nodup_iff.mpr hnodup))

theorem isAscending_latest (hsorted : l.Pairwise fun x y => (compareOn root x y).isLE) :
    IsAscending (latest l) :=
  isAscending_of_ne (hsorted.sublist (List.pwFilter_sublist l)) (List.pairwise_pwFilter l)

theorem isAscending_values {t : Table ProjectRoot LockedProject}
    (h : ∀ root x, t.get? root = some x → x.root = root) : IsAscending t.values := by
  rw [IsAscending, Table.values, List.pairwise_map]
  refine t.sorted.imp_of_mem fun {y z} hy hz hlt => ?_
  rwa [h y.1 y.2 (Table.get?_eq_some_iff.mpr hy), h z.1 z.2 (Table.get?_eq_some_iff.mpr hz)]

end LockedProject

/-! ### What is in a difference -/

namespace LockDiff

open LockedProject (latest IsAscending)

variable {old new l : Lock} {x : LockedProject} {c : LockChange} {root : ProjectRoot}

theorem get?_byRoot : (byRoot l).get? root = some x ↔ x ∈ latest l.projects ∧ x.root = root := by
  rw [byRoot]
  induction l.projects generalizing x with
  | nil => simp [Table.ofList, Table.get?_empty, latest]
  | cons y projects ih =>
      have hnone : (Table.ofList (projects.map fun p => (p.root, p))).get? root = Option.none ↔
          ∀ z ∈ latest projects, z.root ≠ root := by
        simp only [Option.eq_none_iff_forall_ne_some, Ne, ih, not_and]
      rw [List.map_cons, Table.get?_ofList_cons, Option.or_eq_some_iff, ih, hnone,
        LockedProject.mem_latest_cons]
      constructor
      · rintro (hlast | ⟨hlast, hy⟩)
        · exact ⟨.inl hlast.1, hlast.2⟩
        · split at hy
          · rename_i hroot
            cases hy
            exact ⟨.inr ⟨rfl, fun z hz heq => hlast z hz (heq ▸ hroot.symm)⟩, hroot.symm⟩
          · cases hy
      · rintro ⟨hlast | ⟨rfl, hlast⟩, rfl⟩
        · exact .inl ⟨hlast, rfl⟩
        · exact .inr ⟨fun z hz heq => hlast z hz heq.symm, if_pos rfl⟩

theorem get?_byRoot_eq_none :
    (byRoot l).get? root = Option.none ↔ ∀ y ∈ latest l.projects, y.root ≠ root := by
  simp only [Option.eq_none_iff_forall_ne_some, Ne, get?_byRoot, not_and]

theorem mem_values_filter {keep : ProjectRoot → LockedProject → Bool} :
    x ∈ ((byRoot l).filter keep).values ↔ x ∈ latest l.projects ∧ keep x.root x = true := by
  simp only [Table.mem_values_iff, Table.get?_filter, Option.filter_eq_some_iff, get?_byRoot]
  constructor
  · rintro ⟨root, ⟨hmem, rfl⟩, hkeep⟩
    exact ⟨hmem, hkeep⟩
  · rintro ⟨hmem, hkeep⟩
    exact ⟨x.root, ⟨hmem, rfl⟩, hkeep⟩

theorem mem_added : x ∈ (between (some old) new).added ↔
    x ∈ latest new.projects ∧ ∀ y ∈ latest old.projects, y.root ≠ x.root := by
  rw [between, mem_values_filter, Bool.not_eq_true', Table.contains_eq_false_iff,
    get?_byRoot_eq_none]

theorem mem_removed : x ∈ (between (some old) new).removed ↔
    x ∈ latest old.projects ∧ ∀ y ∈ latest new.projects, y.root ≠ x.root := by
  rw [between, mem_values_filter, Bool.not_eq_true', Table.contains_eq_false_iff,
    get?_byRoot_eq_none]

theorem changed_eq : (between (some old) new).changed =
    (byRoot new).entries.filterMap fun z => ((byRoot old).get? z.1).bind fun q =>
      if q = z.2 then .none else some ⟨z.1, q, z.2⟩ := by
  rw [between]
  refine List.filterMap_congr fun z _ => ?_
  dsimp only
  cases (byRoot old).get? z.1 <;> rfl

theorem mem_changed : c ∈ (between (some old) new).changed ↔
    (c.old ∈ latest old.projects ∧ c.old.root = c.root) ∧
      (c.new ∈ latest new.projects ∧ c.new.root = c.root) ∧ c.old ≠ c.new := by
  simp only [changed_eq, List.mem_filterMap, Option.bind_eq_some_iff, Option.ite_none_left_eq_some,
    Option.some.injEq, ← get?_byRoot]
  constructor
  · rintro ⟨⟨root, p⟩, hp, q, hq, hne, rfl⟩
    exact ⟨hq, Table.get?_eq_some_iff.mpr hp, hne⟩
  · rintro ⟨hold, hnew, hne⟩
    exact ⟨(c.root, c.new), Table.get?_eq_some_iff.mp hnew, c.old, hold, hne, rfl⟩

theorem isAscending_values_filter {keep : ProjectRoot → LockedProject → Bool} :
    IsAscending ((byRoot l).filter keep).values := by
  apply LockedProject.isAscending_values
  intro root x hget
  rw [Table.get?_filter, Option.filter_eq_some_iff, get?_byRoot] at hget
  exact hget.1.2

theorem isAscending_added : IsAscending (between (some old) new).added := isAscending_values_filter

theorem isAscending_removed : IsAscending (between (some old) new).removed :=
  isAscending_values_filter

theorem pairwise_changed :
    (between (some old) new).changed.Pairwise fun c c' => compare c.root c'.root = .lt := by
  rw [changed_eq, List.pairwise_filterMap]
  refine (byRoot new).sorted.imp fun {y z} hlt c hc c' hc' => ?_
  simp only [Option.bind_eq_some_iff, Option.ite_none_left_eq_some, Option.some.injEq] at hc hc'
  obtain ⟨q, -, -, rfl⟩ := hc
  obtain ⟨q', -, -, rfl⟩ := hc'
  exact hlt

/-! ### Differences as patches -/

/-- The projects that are no longer there as they were. -/
def dropped (d : LockDiff) : List LockedProject := d.removed ++ d.changed.map (·.old)

/-- The projects that were not there as they are. -/
def gained (d : LockDiff) : List LockedProject := d.added ++ d.changed.map (·.new)

/-- What a difference makes of some projects, in the order of their roots. -/
def patch (d : LockDiff) (projects : List LockedProject) : List LockedProject :=
  Sorting.sort (compareOn LockedProject.root)
    (projects.filter (fun x => x ∉ d.dropped) ++ d.gained)

theorem mem_dropped : x ∈ (between (some old) new).dropped ↔
    x ∈ latest old.projects ∧ x ∉ latest new.projects := by
  rw [dropped, List.mem_append, List.mem_map]
  constructor
  · rintro (hremoved | ⟨c, hchanged, rfl⟩)
    · obtain ⟨hold, hnew⟩ := mem_removed.mp hremoved
      exact ⟨hold, fun hx => hnew x hx rfl⟩
    · obtain ⟨⟨hold, hroot⟩, ⟨hnew, hroot'⟩, hne⟩ := mem_changed.mp hchanged
      exact ⟨hold, fun hx =>
        hne (LockedProject.eq_of_root_eq hx hnew (hroot.trans hroot'.symm))⟩
  · rintro ⟨hold, hnot⟩
    by_cases hroot : ∀ y ∈ latest new.projects, y.root ≠ x.root
    · exact .inl (mem_removed.mpr ⟨hold, hroot⟩)
    · push Not at hroot
      obtain ⟨y, hnew, hroot⟩ := hroot
      have hne : x ≠ y := by
        rintro rfl
        exact hnot hnew
      exact .inr ⟨⟨x.root, x, y⟩, mem_changed.mpr ⟨⟨hold, rfl⟩, ⟨hnew, hroot⟩, hne⟩, rfl⟩

theorem mem_gained_iff_mem_dropped :
    x ∈ (between (some old) new).gained ↔ x ∈ (between (some new) old).dropped := by
  rw [gained, dropped, List.mem_append, List.mem_append, mem_added, mem_removed, List.mem_map,
    List.mem_map]
  refine or_congr_right ⟨?_, ?_⟩
  · rintro ⟨c, hc, rfl⟩
    obtain ⟨hold, hnew, hne⟩ := mem_changed.mp hc
    exact ⟨⟨c.root, c.new, c.old⟩, mem_changed.mpr ⟨hnew, hold, hne.symm⟩, rfl⟩
  · rintro ⟨c, hc, rfl⟩
    obtain ⟨hold, hnew, hne⟩ := mem_changed.mp hc
    exact ⟨⟨c.root, c.new, c.old⟩, mem_changed.mpr ⟨hnew, hold, hne.symm⟩, rfl⟩

theorem mem_gained : x ∈ (between (some old) new).gained ↔
    x ∈ latest new.projects ∧ x ∉ latest old.projects := by
  rw [mem_gained_iff_mem_dropped, mem_dropped]

theorem isEmpty_between : (between (some old) new).isEmpty = true ↔
    old.inputsDigest = new.inputsDigest ∧
      ∀ x, x ∈ latest old.projects ↔ x ∈ latest new.projects := by
  have hdigest : (between (some old) new).digestChanged = false ↔
      old.inputsDigest = new.inputsDigest := by
    rw [between, decide_eq_false_iff_not, not_not]
  have hempty : ∀ d : LockDiff, d.isEmpty = true ↔
      d.digestChanged = false ∧ d.dropped = [] ∧ d.gained = [] := by
    rintro ⟨digestChanged, added, removed, changed⟩
    simp only [isEmpty, dropped, gained, Bool.and_eq_true, Bool.not_eq_true', List.isEmpty_iff,
      List.append_eq_nil_iff, List.map_eq_nil_iff]
    tauto
  simp only [hempty, hdigest, List.eq_nil_iff_forall_not_mem, mem_dropped, mem_gained, not_and,
    not_not, ← forall_and, iff_iff_implies_and_implies]

theorem nodup_roots : ((between (some old) new).added.map (·.root) ++
    ((between (some old) new).removed.map (·.root) ++
      (between (some old) new).changed.map (·.root))).Nodup := by
  have hchanged : ((between (some old) new).changed.map (·.root)).Nodup := by
    rw [List.nodup_iff_pairwise_ne, List.pairwise_map]
    refine pairwise_changed.imp fun {c c'} hlt heq => ?_
    rw [heq] at hlt
    simp at hlt
  rw [List.nodup_append, List.nodup_append]
  simp only [List.mem_append, List.mem_map]
  refine ⟨isAscending_added.nodup, ⟨isAscending_removed.nodup, hchanged, ?_⟩, ?_⟩
  · rintro _ ⟨x, hx, rfl⟩ _ ⟨c, hc, rfl⟩ heq
    obtain ⟨-, ⟨hnew, hroot⟩, -⟩ := mem_changed.mp hc
    exact (mem_removed.mp hx).2 c.new hnew (hroot.trans heq.symm)
  · rintro _ ⟨x, hx, rfl⟩ _ (⟨y, hy, rfl⟩ | ⟨c, hc, rfl⟩) heq
    · exact (mem_added.mp hx).2 y (mem_removed.mp hy).1 heq.symm
    · obtain ⟨⟨hold, hroot⟩, -, -⟩ := mem_changed.mp hc
      exact (mem_added.mp hx).2 c.old hold (hroot.trans heq.symm)

theorem nodup_gained : (between (some old) new).gained.Nodup := by
  have hchanged : (between (some old) new).changed.map (fun c => c.new.root) =
      (between (some old) new).changed.map (·.root) :=
    List.map_congr_left fun c hc => (mem_changed.mp hc).2.1.2
  apply List.Nodup.of_map LockedProject.root
  rw [gained, List.map_append, List.map_map, Function.comp_def, hchanged]
  exact nodup_roots.sublist ((List.Sublist.refl _).append (List.sublist_append_right _ _))

/-- Where no root is listed twice, a difference makes the new projects of the old ones. -/
theorem patch_between (hold : (old.projects.map (·.root)).Nodup)
    (hnew : IsAscending new.projects) :
    (between (some old) new).patch old.projects = new.projects := by
  have hlatest := LockedProject.latest_eq_self hold
  have hlatest' := LockedProject.latest_eq_self hnew.nodup
  have hperm : (old.projects.filter (fun x => x ∉ (between (some old) new).dropped) ++
      (between (some old) new).gained).Perm new.projects := by
    refine (List.perm_ext_iff_of_nodup ?_ (.of_map _ hnew.nodup)).mpr fun x => ?_
    · refine List.nodup_append.mpr ⟨(List.Nodup.of_map _ hold).filter _, nodup_gained, ?_⟩
      rintro x hx _ hgained rfl
      rw [mem_gained, hlatest] at hgained
      exact hgained.2 (List.mem_filter.mp hx).1
    · rw [List.mem_append, List.mem_filter, decide_eq_true_iff, mem_dropped, mem_gained, hlatest,
        hlatest']
      tauto
  refine (LockedProject.isAscending_sort ?_).eq_of_mem_iff hnew fun x => ?_
  · exact (hperm.map _).nodup_iff.mpr hnew.nodup
  · rw [Sorting.mem_sort, hperm.mem_iff]

/-- A difference that makes one lock of another, and says of each root no more than once what
happens to it. -/
structure IsPatch (old new : Lock) (d : LockDiff) : Prop where
  patch_eq : d.patch old.projects = new.projects
  dropped_subset : d.dropped ⊆ old.projects
  gained_subset : d.gained ⊆ new.projects
  nodup : (d.added.map (·.root) ++ (d.removed.map (·.root) ++ d.changed.map (·.root))).Nodup
  added : IsAscending d.added
  removed : IsAscending d.removed
  changed : d.changed.Pairwise fun c c' => compare c.root c'.root = .lt
  differ : ∀ c ∈ d.changed, c.old.root = c.root ∧ c.new.root = c.root ∧ c.old ≠ c.new
  digestChanged_iff : d.digestChanged = true ↔ old.inputsDigest ≠ new.inputsDigest
  isEmpty_iff : d.isEmpty = true ↔ old = new

/-- The difference of two locks is a patch from the one to the other, if neither lists a root
twice. -/
theorem isPatch_between {digest digest' : String} {projects projects' : List LockedProject}
    (hold : (projects.map (·.root)).Nodup) (hnew : (projects'.map (·.root)).Nodup) :
    IsPatch (.ofProjects digest projects) (.ofProjects digest' projects')
      (between (some (.ofProjects digest projects)) (.ofProjects digest' projects')) := by
  have holdAscending := LockedProject.isAscending_sort hold
  have hnewAscending := LockedProject.isAscending_sort hnew
  have hlatest := LockedProject.latest_eq_self holdAscending.nodup
  have hlatest' := LockedProject.latest_eq_self hnewAscending.nodup
  refine {
    patch_eq := patch_between holdAscending.nodup hnewAscending
    dropped_subset := fun x hx => ?_
    gained_subset := fun x hx => ?_
    nodup := nodup_roots
    added := isAscending_added
    removed := isAscending_removed
    changed := pairwise_changed
    differ := fun c hc => ?_
    digestChanged_iff := decide_eq_true_iff
    isEmpty_iff := ?_ }
  · exact (List.pwFilter_sublist _).subset (mem_dropped.mp hx).1
  · exact (List.pwFilter_sublist _).subset (mem_gained.mp hx).1
  · obtain ⟨⟨-, hroot⟩, ⟨-, hroot'⟩, hne⟩ := mem_changed.mp hc
    exact ⟨hroot, hroot', hne⟩
  · rw [isEmpty_between]
    simp only [Lock.ofProjects, hlatest, hlatest', Lock.mk.injEq]
    refine and_congr_right fun _ => ⟨holdAscending.eq_of_mem_iff hnewAscending, ?_⟩
    intro heq x
    rw [heq]

/-- Projects that are put out of order, to be replaced by `freshProjects`. -/
def staleProjects : List LockedProject :=
  [.ofPackages ⟨"b.io"⟩ (.revision ⟨"r1"⟩) [], .ofPackages ⟨"a.io"⟩ (.revision ⟨"r1"⟩) ["x"]]

/-- One project is changed, one is gone and one has come. -/
def freshProjects : List LockedProject :=
  [.ofPackages ⟨"c.io"⟩ (.revision ⟨"r1"⟩) [], .ofPackages ⟨"a.io"⟩ (.revision ⟨"r2"⟩) ["x"]]

theorem isPatch_between_freshProjects :
    IsPatch (.ofProjects "d" staleProjects) (.ofProjects "d" freshProjects)
        (between (some (.ofProjects "d" staleProjects)) (.ofProjects "d" freshProjects)) ∧
      toString (between (some (.ofProjects "d" staleProjects)) (.ofProjects "d" freshProjects)) =
        "+ c.io r1\n- b.io r1\n~ a.io r1 -> r2\n" :=
  ⟨isPatch_between (by decide) (by decide), by decide +kernel⟩

end LockDiff

end DepSolver
