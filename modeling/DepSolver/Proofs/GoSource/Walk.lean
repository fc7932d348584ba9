import DepSolver.Proofs.Disk.Path
import DepSolver.Proofs.PackageTree.Build
import Mathlib.Data.List.Infix
import Mathlib.Data.List.Perm.Subperm

/-!
Which directories are analyzed. The walk passes over a directory with all that is below it, and
still comes to every directory that the options ask for: what it passes over lies on the way to none
of these. Each of them puts its package, or what is wrong with it, at its own import path, and no
other path gets an entry.
-/

namespace DepSolver

/-! ### Directories below a place -/

namespace FileTree

variable {t : FileTree} {start place : List String} {name : String}

theorem mem_subdirectories_iff :
    name ∈ t.subdirectories place ↔ t.node? (place ++ [name]) = some .directory := by
  rw [node?, if_neg (by simp), Table.get?_eq_some_iff, subdirectories, below, List.mem_filterMap]
  constructor
  · rintro ⟨⟨names, n⟩, hbelow, hname⟩
    obtain ⟨⟨key, n'⟩, hentry, hnames⟩ := List.mem_filterMap.mp hbelow
    simp only [Option.ite_none_right_eq_some, Bool.and_eq_true, List.isPrefixOf_iff_prefix,
      Option.some.injEq, Prod.mk.injEq] at hnames
    obtain ⟨⟨⟨rest, rfl⟩, -⟩, rfl, rfl⟩ := hnames
    rw [List.drop_left] at hname
    split at hname
    · rename_i hpair
      obtain ⟨rfl, rfl⟩ := Prod.mk.inj hpair
      rwa [← Option.some.inj hname]
    · cases hname
  · intro hentry
    refine ⟨([name], .directory), List.mem_filterMap.mpr ⟨_, hentry, ?_⟩, rfl⟩
    simp [List.isPrefixOf_iff_prefix]

/-- Every place from one place down to another one below it is a directory itself, and no link. -/
def IsDirectoryBelow (t : FileTree) (start place : List String) : Prop :=
  ∀ station, station <+: place → t.node? (start ++ station) = some .directory

theorem node?_eq_of_lookup {rootDir : FilePath} {n : FileNode}
    (h : t.lookup rootDir = .ok (start, n)) : t.node? start = some n := by
  rw [lookup] at h
  obtain ⟨found, -, hnode⟩ := exists_of_bind_eq_ok h
  cases found with
  | free directory name => cases hnode
  | taken place =>
      dsimp only at hnode
      split at hnode
      · cases hnode
        assumption
      · cases hnode

theorem IsDirectoryBelow.length_le (h : t.IsDirectoryBelow start place) :
    place.length ≤ t.nodes.size := by
  let stations := (List.range place.length).map fun i => start ++ place.take (i + 1)
  have hnodup : stations.Nodup := by
    apply List.Nodup.map_on _ List.nodup_range
    intro i hi j hj heq
    have hlength := congrArg List.length (List.append_cancel_left heq)
    rw [List.mem_range] at hi hj
    rw [List.length_take, List.length_take] at hlength
    omega
  have hkeys : stations ⊆ t.nodes.keys := by
    intro station hstation
    obtain ⟨i, hi, rfl⟩ := List.mem_map.mp hstation
    rw [List.mem_range] at hi
    have hnode := h _ (List.take_prefix (i + 1) place)
    have hne : start ++ place.take (i + 1) ≠ [] := by
      apply List.append_ne_nil_of_right_ne_nil
      rw [Ne, List.take_eq_nil_iff]
      rintro (hzero | rfl)
      · omega
      · cases hi
    rw [node?, if_neg (by simpa using hne)] at hnode
    exact Table.mem_keys_iff.mpr ⟨_, hnode⟩
  have hlength := (List.subperm_of_subset hnodup hkeys).length_le
  rwa [List.length_map, List.length_range, Table.keys, List.length_map] at hlength

/-- No name in the tree is empty or has a slash in it. -/
def HasPlainNames (t : FileTree) : Prop :=
  ∀ place ∈ t.nodes.keys, ∀ name ∈ place, name ≠ "" ∧ '/' ∉ name.toList

theorem HasPlainNames.of_isDirectoryBelow (h : t.HasPlainNames)
    (hplace : t.IsDirectoryBelow start place) : ∀ name ∈ place, name ≠ "" ∧ '/' ∉ name.toList := by
  intro name hname
  have hnode := hplace place List.prefix_rfl
  have hne : start ++ place ≠ [] :=
    List.append_ne_nil_of_right_ne_nil _ (List.ne_nil_of_mem hname)
  rw [node?, if_neg (by simpa using hne)] at hnode
  exact h _ (Table.mem_keys_iff.mpr ⟨_, hnode⟩) name (List.mem_append_right _ hname)

end FileTree

/-! ### The walk -/

namespace GoSource

variable {t : FileTree} {o : BuildOptions} {enters : List String → Bool}
  {start place inner : List String} {levels : Nat} {rootDir : FilePath}

theorem forall_prefix_cons_iff {P : List String → Prop} {name : String} {rest : List String} :
    (∀ station, station <+: name :: rest → station ≠ [] → P station) ↔
      P [name] ∧ ∀ station, station <+: rest → station ≠ [] → P (name :: station) := by
  constructor
  · intro h
    refine ⟨h _ ⟨rest, rfl⟩ (by simp), fun station hstation _ => ?_⟩
    exact h _ (List.cons_prefix_cons.mpr ⟨rfl, hstation⟩) (by simp)
  · rintro ⟨hfirst, hrest⟩ station hstation hne
    rcases List.prefix_cons_iff.mp hstation with rfl | ⟨below, rfl, hbelow⟩
    · exact absurd rfl hne
    · by_cases hnil : below = []
      · rwa [hnil]
      · exact hrest below hbelow hnil

private theorem mem_visitBelow_succ :
    inner ∈ visitBelow t enters start (levels + 1) place ↔
      ∃ name, (t.node? (start ++ (place ++ [name])) = some .directory ∧
          enters (place ++ [name]) = true) ∧
        (inner = place ++ [name] ∨ inner ∈ visitBelow t enters start levels (place ++ [name])) := by
  simp only [visitBelow, List.mem_flatMap, List.mem_filter, List.mem_map,
    FileTree.mem_subdirectories_iff, List.mem_cons, List.append_assoc]
  constructor
  · rintro ⟨_, ⟨⟨name, hnode, rfl⟩, henters⟩, hinner⟩
    exact ⟨name, ⟨hnode, henters⟩, hinner⟩
  · rintro ⟨name, ⟨hnode, henters⟩, hinner⟩
    exact ⟨_, ⟨⟨name, hnode, rfl⟩, henters⟩, hinner⟩

/-- The walk comes to the places that it reaches through directories each of which it enters. -/
theorem mem_visitBelow_iff :
    inner ∈ visitBelow t enters start levels place ↔
      ∃ names, names ≠ [] ∧ names.length ≤ levels ∧ inner = place ++ names ∧
        ∀ station, station <+: names → station ≠ [] →
          t.node? (start ++ (place ++ station)) = some .directory ∧
            enters (place ++ station) = true := by
  induction levels generalizing place with
  | zero =>
      simp only [visitBelow, List.not_mem_nil, false_iff]
      rintro ⟨names, hne, hlength, -⟩
      exact hne (List.length_eq_zero_iff.mp (Nat.le_zero.mp hlength))
  | succ levels ih =>
      rw [mem_visitBelow_succ]
      constructor
      · rintro ⟨name, hstep, rfl | hinner⟩
        · refine ⟨[name], by simp, by simp, rfl, forall_prefix_cons_iff.mpr ⟨hstep, ?_⟩⟩
          intro station hstation hne
          exact absurd (List.prefix_nil.mp hstation) hne
        · obtain ⟨names, -, hlength, rfl, hstations⟩ := ih.mp hinner
          refine ⟨name :: names, by simp, by simpa using hlength, by simp,
            forall_prefix_cons_iff.mpr ⟨hstep, fun station hstation hne => ?_⟩⟩
          have hlater := hstations station hstation hne
          rwa [List.append_assoc, List.singleton_append] at hlater
      · rintro ⟨names, hne, hlength, rfl, hstations⟩
        obtain ⟨name, rest, rfl⟩ := List.exists_cons_of_ne_nil hne
        obtain ⟨hstep, hlater⟩ := forall_prefix_cons_iff.mp hstations
        refine ⟨name, hstep, ?_⟩
        by_cases hnil : rest = []
        · exact .inl (by rw [hnil])
        · refine .inr (ih.mpr ⟨rest, hnil, by simpa using hlength, by simp, ?_⟩)
          intro station hstation hne
          rw [List.append_assoc, List.singleton_append]
          exact hlater station hstation hne

theorem mem_visitBelow_size_iff (hstart : t.node? start = some .directory) (hne : place ≠ []) :
    place ∈ visitBelow t enters start t.nodes.size [] ↔
      t.IsDirectoryBelow start place ∧
        ∀ station, station <+: place → station ≠ [] → enters station = true := by
  rw [mem_visitBelow_iff]
  simp only [List.nil_append]
  constructor
  · rintro ⟨names, -, -, rfl, hstations⟩
    refine ⟨fun station hstation => ?_, fun station hstation h => (hstations _ hstation h).2⟩
    by_cases hnil : station = []
    · rwa [hnil, List.append_nil]
    · exact (hstations station hstation hnil).1
  · rintro ⟨hbelow, henters⟩
    exact ⟨place, hne, hbelow.length_le, rfl,
      fun station hstation h => ⟨hbelow station hstation, henters station hstation h⟩⟩

theorem mem_directories_iff (hlookup : t.lookup rootDir = .ok (start, .directory))
    (hne : place ≠ []) :
    place ∈ directories t o rootDir ↔
      t.IsDirectoryBelow start place ∧
        ∀ station, station <+: place → station ≠ [] → o.enters station = true := by
  rw [directories, hlookup]
  dsimp only
  rw [← mem_visitBelow_size_iff (FileTree.node?_eq_of_lookup hlookup) hne]
  split
  · rfl
  · simp [hne]

theorem nil_mem_directories_iff (hlookup : t.lookup rootDir = .ok (start, .directory)) :
    [] ∈ directories t o rootDir ↔ t.linkTarget? rootDir = none := by
  have hinside : [] ∉ visitBelow t o.enters start t.nodes.size [] := by
    rw [mem_visitBelow_iff]
    rintro ⟨names, hne, -, hnil, -⟩
    exact hne (by simpa using hnil.symm)
  rw [directories, hlookup]
  dsimp only
  split
  · rename_i hlink
    obtain ⟨target, htarget⟩ := Option.isSome_iff_exists.mp hlink
    simp [hinside, htarget]
  · rename_i hlink
    simpa using hlink

end GoSource

/-! ### What the options ask for -/

namespace BuildOptions

variable {o : BuildOptions} {place station : List String}

/-- A directory of this name is passed over, wherever it is. -/
def IsPassedOver (name : String) : Prop :=
  name.toList.head? = some '.' ∨ name.toList.head? = some '_' ∨ name = "vendor" ∨ name = "testdata"

/-- A place below the root is one of those that the options ask for. -/
structure AsksFor (o : BuildOptions) (place : List String) : Prop where
  visible : ∀ name ∈ place, ¬ IsPassedOver name
  kept : ∀ skipped ∈ o.skipDirs, ¬ skipped.components <+: components place
  sourced : o.sourcePaths = [] ∨ ∃ p ∈ o.sourcePaths, p.components <+: components place

theorem startsWith_singleton_iff {c : Char} {name : String} :
    Text.startsWith (.singleton c) name = true ↔ name.toList.head? = some c := by
  rw [Text.startsWith, String.toList_singleton, Option.isSome_iff_exists]
  simp only [Text.dropStart?_eq_some_iff, List.singleton_append]
  rw [List.head?_eq_some_iff]

theorem isVisitable_iff {name : String} : isVisitable name = true ↔ ¬ IsPassedOver name := by
  have hdot : Text.startsWith "." name = true ↔ _ := startsWith_singleton_iff (c := '.')
  have hunderscore : Text.startsWith "_" name = true ↔ _ := startsWith_singleton_iff (c := '_')
  rw [isVisitable, Bool.not_eq_true', ← Bool.not_eq_true, IsPassedOver]
  simp only [Bool.or_eq_true, decide_eq_true_eq, hdot, hunderscore, or_assoc]

theorem enters_iff : o.enters place = true ↔
    (∀ name ∈ place.getLast?, ¬ IsPassedOver name) ∧
      (∀ skipped ∈ o.skipDirs, ¬ skipped.components <+: components place) ∧
      (o.sourcePaths = [] ∨ ∃ p ∈ o.sourcePaths,
        p.components <+: components place ∨ components place <+: p.components) := by
  have hvisible : place.getLast?.all isVisitable = true ↔
      ∀ name ∈ place.getLast?, ¬ IsPassedOver name := by
    simp [Option.all_eq_true, isVisitable_iff]
  rw [enters, Bool.and_eq_true, Bool.and_eq_true, hvisible, and_assoc]
  simp [isBelow, isAbove, ← List.isPrefixOf_iff_prefix]

theorem analyzes_iff : o.analyzes place = true ↔
    o.sourcePaths = [] ∨ ∃ p ∈ o.sourcePaths, p.components <+: components place := by
  simp [analyzes, isBelow, List.isPrefixOf_iff_prefix]

private theorem isPrefix_components (h : station <+: place) :
    components station <+: components place :=
  h.map _

theorem AsksFor.enters (h : o.AsksFor place) (hstation : station <+: place) :
    o.enters station = true := by
  refine enters_iff.mpr ⟨fun name hname => ?_, fun skipped hskipped hbelow => ?_, ?_⟩
  · exact h.visible name (hstation.mem (List.mem_of_getLast? hname))
  · exact h.kept skipped hskipped (hbelow.trans (isPrefix_components hstation))
  · refine h.sourced.imp_right fun ⟨p, hp, hbelow⟩ => ⟨p, hp, ?_⟩
    exact List.prefix_or_prefix_of_prefix hbelow (isPrefix_components hstation)

theorem asksFor_iff (hne : place ≠ []) :
    o.AsksFor place ↔ (∀ station, station <+: place → station ≠ [] → o.enters station = true) ∧
      o.analyzes place = true := by
  constructor
  · intro h
    exact ⟨fun station hstation _ => h.enters hstation, analyzes_iff.mpr h.sourced⟩
  · rintro ⟨henters, hanalyzes⟩
    refine ⟨fun name hname => ?_, (enters_iff.mp (henters place List.prefix_rfl hne)).2.1,
      analyzes_iff.mp hanalyzes⟩
    obtain ⟨before, after, rfl⟩ := List.append_of_mem hname
    have hstation : before ++ [name] <+: before ++ name :: after :=
      ⟨after, by simp⟩
    exact (enters_iff.mp (henters _ hstation (by simp))).1 name (by simp)

end BuildOptions

/-! ### What is built -/

namespace GoSource

variable {t : FileTree} {o : BuildOptions} {analyzer : Analyzer} {start place place' : List String}
  {rootDir : FilePath} {importRoot path : String} {tree : PackageTree}

theorem mem_analyzed_iff (hlookup : t.lookup rootDir = .ok (start, .directory))
    (hne : place ≠ []) :
    place ∈ analyzed t o rootDir ↔ t.IsDirectoryBelow start place ∧ o.AsksFor place := by
  rw [analyzed, List.mem_filter, mem_directories_iff hlookup hne, BuildOptions.asksFor_iff hne,
    and_assoc]

theorem nil_mem_analyzed_iff (hlookup : t.lookup rootDir = .ok (start, .directory)) :
    [] ∈ analyzed t o rootDir ↔
      t.linkTarget? rootDir = none ∧ (o.sourcePaths = [] ∨ ⟨""⟩ ∈ o.sourcePaths) := by
  have hroot : BuildOptions.components [] = [] := rfl
  rw [analyzed, List.mem_filter, nil_mem_directories_iff hlookup, BuildOptions.analyzes_iff]
  simp [hroot, FilePath.components_eq_nil_iff]

private theorem isDirectoryBelow_of_mem_analyzed (hlookup : t.lookup rootDir = .ok
    (start, .directory))
    (h : place ∈ analyzed t o rootDir) : t.IsDirectoryBelow start place := by
  by_cases hnil : place = []
  · intro station hstation
    rw [hnil, List.prefix_nil] at hstation
    rw [hstation, List.append_nil]
    exact FileTree.node?_eq_of_lookup hlookup
  · exact ((mem_analyzed_iff hlookup hnil).mp h).1

theorem toList_importPathOf (hne : place ≠ []) :
    (importPathOf importRoot place).toList =
      (if importRoot = "" then [] else importRoot.toList ++ ['/']) ++
        ['/'].intercalate (place.map String.toList) := by
  have hslash : "/".toList = ['/'] := rfl
  rw [importPathOf, if_neg (by simpa using hne)]
  by_cases hroot : importRoot = ""
  · simp [hroot, hslash, String.toList_intercalate]
  · simp [hroot, hslash, String.toList_intercalate]

theorem splitOn_intercalate_names (hplain : ∀ name ∈ place, name ≠ "" ∧ '/' ∉ name.toList)
    (hne : place ≠ []) :
    List.splitOn '/' (['/'].intercalate (place.map String.toList)) = place.map String.toList :=
  List.splitOn_intercalate '/' (by simpa using fun name hname => (hplain name hname).2) (by simpa)

private theorem importPathOf_ne (hplain : ∀ name ∈ place, name ≠ "" ∧ '/' ∉ name.toList)
    (hne : place ≠ []) : importPathOf importRoot place ≠ importRoot := by
  intro heq
  have hsplit := splitOn_intercalate_names hplain hne
  have hchars := congrArg String.toList heq
  rw [toList_importPathOf hne] at hchars
  split at hchars
  · rename_i hroot
    rw [hroot, List.nil_append, String.toList_empty] at hchars
    rw [hchars, List.splitOn_nil] at hsplit
    obtain ⟨name, hplace, hname⟩ := List.map_eq_singleton_iff.mp hsplit.symm
    exact (hplain name (by simp [hplace])).1 (by simpa using hname)
  · have hlength := congrArg List.length hchars
    simp only [List.length_append, List.length_singleton] at hlength
    omega

theorem importPathOf_inj (hplain : ∀ name ∈ place, name ≠ "" ∧ '/' ∉ name.toList)
    (hplain' : ∀ name ∈ place', name ≠ "" ∧ '/' ∉ name.toList)
    (h : importPathOf importRoot place = importPathOf importRoot place') : place = place' := by
  by_cases hne : place = []
  · by_contra hdiffer
    rw [hne] at h hdiffer
    exact importPathOf_ne hplain' (Ne.symm hdiffer) h.symm
  by_cases hne' : place' = []
  · rw [hne'] at h
    exact absurd h (importPathOf_ne hplain hne)
  have hchars := congrArg String.toList h
  rw [toList_importPathOf hne, toList_importPathOf hne', List.append_cancel_left_eq] at hchars
  have hnames := congrArg (List.splitOn '/') hchars
  rw [splitOn_intercalate_names hplain hne, splitOn_intercalate_names hplain' hne'] at hnames
  exact List.map_injective_iff.mpr (fun _ _ => String.toList_injective) hnames

theorem get?_foldl_of_forall_ne (hroot : tree.importRoot = importRoot)
    {places : List (List String)} (h : ∀ place ∈ places, importPathOf importRoot place ≠ path) :
    (places.foldl (addDirectory analyzer rootDir) tree).get? path = tree.get? path := by
  induction places generalizing tree with
  | nil => rfl
  | cons place places ih =>
      obtain ⟨hplace, hplaces⟩ := List.forall_mem_cons.mp h
      rw [List.foldl_cons, ih ((importRoot_addDirectory ..).trans hroot) hplaces, get?_addDirectory,
        hroot, if_neg hplace.symm]

private theorem get?_foldl_of_mem (hroot : tree.importRoot = importRoot) {places : List
    (List String)}
    (hinj : ∀ other ∈ places, importPathOf importRoot other = importPathOf importRoot place →
      other = place) (h : place ∈ places) :
    (places.foldl (addDirectory analyzer rootDir) tree).get? (importPathOf importRoot place) =
      (entryOf? (analyzer (pathOf rootDir place) (importPathOf importRoot place))).or
        (tree.get? (importPathOf importRoot place)) := by
  induction places generalizing tree with
  | nil => cases h
  | cons first places ih =>
      obtain ⟨hfirst, hplaces⟩ := List.forall_mem_cons.mp hinj
      have hroot' := (importRoot_addDirectory analyzer rootDir tree first).trans hroot
      rw [List.foldl_cons]
      by_cases hmem : place ∈ places
      · rw [ih hroot' hplaces hmem, get?_addDirectory, hroot]
        split
        · rename_i heq
          rw [hfirst heq.symm, ← Option.or_assoc, Option.or_self]
        · rfl
      · obtain rfl : place = first := (List.mem_cons.mp h).resolve_right hmem
        rw [get?_foldl_of_forall_ne hroot', get?_addDirectory, hroot, if_pos rfl]
        intro other hother heq
        exact hmem (hplaces other hother heq ▸ hother)

/-- A tree is what an analyzer makes of just the directories that the options ask for. -/
structure IsBuiltFrom (analyzer : Analyzer) (t : FileTree) (rootDir : FilePath)
    (start : List String) (importRoot : String) (o : BuildOptions) (tree : PackageTree) : Prop where
  root_iff : [] ∈ analyzed t o rootDir ↔
    t.linkTarget? rootDir = none ∧ (o.sourcePaths = [] ∨ ⟨""⟩ ∈ o.sourcePaths)
  below_iff : ∀ place, place ≠ [] →
    (place ∈ analyzed t o rootDir ↔ t.IsDirectoryBelow start place ∧ o.AsksFor place)
  get?_eq : ∀ place ∈ analyzed t o rootDir, tree.get? (importPathOf importRoot place) =
    entryOf? (analyzer (pathOf rootDir place) (importPathOf importRoot place))
  exists_place : ∀ path entry, tree.get? path = some entry →
    ∃ place ∈ analyzed t o rootDir, path = importPathOf importRoot place
  within : ∀ path, tree.contains path = true → ImportPath.isWithin path importRoot = true

/-- The walk loses no directory: those that the options ask for are analyzed, and no other ones, and
each has the entry that its analysis gives. -/
theorem isBuiltFrom_of_lookup (analyzer : Analyzer) (importRoot : String) (o : BuildOptions)
    (hlookup : t.lookup rootDir = .ok (start, .directory)) (hnames : t.HasPlainNames) :
    ∃ tree, PackageTree.buildWith analyzer t rootDir importRoot o = .ok tree ∧
      IsBuiltFrom analyzer t rootDir start importRoot o tree := by
  have hdirectory : t.isDirectory rootDir = true := by rw [FileTree.isDirectory, hlookup]
  have hbuild : PackageTree.buildWith analyzer t rootDir importRoot o =
      .ok ((analyzed t o rootDir).foldl (addDirectory analyzer rootDir) (.ofRoot importRoot)) := by
    rw [PackageTree.buildWith, hdirectory]
    rfl
  have hplain : ∀ place ∈ analyzed t o rootDir, ∀ name ∈ place, name ≠ "" ∧ '/' ∉ name.toList :=
    fun place hplace =>
      hnames.of_isDirectoryBelow (isDirectoryBelow_of_mem_analyzed hlookup hplace)
  refine ⟨_, hbuild, nil_mem_analyzed_iff hlookup, fun place => mem_analyzed_iff hlookup, ?_, ?_,
    (PackageTree.isRooted_of_buildWith hbuild).within⟩
  · intro place hplace
    have hinj : ∀ other ∈ analyzed t o rootDir,
        importPathOf importRoot other = importPathOf importRoot place → other = place :=
      fun other hother => importPathOf_inj (hplain other hother) (hplain place hplace)
    have hroot : (PackageTree.ofRoot importRoot).importRoot = importRoot := rfl
    exact (get?_foldl_of_mem hroot hinj hplace).trans Option.or_none
  · intro path entry hentry
    by_contra hnone
    have hne : ∀ place ∈ analyzed t o rootDir, importPathOf importRoot place ≠ path :=
      fun place hplace heq => hnone ⟨place, hplace, heq.symm⟩
    rw [get?_foldl_of_forall_ne rfl hne] at hentry
    cases hentry

/-- A tree of three directories that can hold packages, one of them inside another. -/
def nestedTree : FileTree :=
  ⟨.ofList
    [(["a"], .directory), (["a", "x"], .directory),
      (["a", "x", "x.go"], .file (.text "package x\n")), (["a", "y"], .directory),
      (["a", "y", "y.go"], .file (.text "package y\n")), (["b"], .directory),
      (["b", "b.go"], .file (.text "package b\n"))]⟩

private theorem hasPlainNames_nestedTree : nestedTree.HasPlainNames := by
  unfold FileTree.HasPlainNames
  decide

/-- The directory `a` is asked for, without what is in `a/y`. -/
theorem isBuiltFrom_nestedTree :
    nestedTree.lookup ⟨"."⟩ = .ok ([], .directory) ∧ nestedTree.HasPlainNames ∧
      ∃ tree, PackageTree.buildWith (analyze nestedTree) nestedTree ⟨"."⟩ "m.io"
          ⟨[⟨"a"⟩], [⟨"a/y"⟩]⟩ = .ok tree ∧
        IsBuiltFrom (analyze nestedTree) nestedTree ⟨"."⟩ [] "m.io" ⟨[⟨"a"⟩], [⟨"a/y"⟩]⟩ tree :=
  ⟨nestedTree.lookup_here, hasPlainNames_nestedTree,
    isBuiltFrom_of_lookup (analyze nestedTree) "m.io" ⟨[⟨"a"⟩], [⟨"a/y"⟩]⟩ nestedTree.lookup_here
      hasPlainNames_nestedTree⟩

/-- A directory with a package, and a link to it. -/
def linkedTree : FileTree :=
  ⟨.ofList
    [(["link"], .link ⟨"real"⟩), (["real"], .directory),
      (["real", "main.go"], .file (.text "package real\n"))]⟩

theorem walk_linkedTree {rest : List String} {links : Nat} (hrest : rest ≠ [""]) :
    linkedTree.walk .target (links + 1) [] ("link" :: rest) =
      linkedTree.walk .target links ["real"] rest := by
  have hnode : linkedTree.node? ["link"] = some (.link ⟨"real"⟩) := by decide
  have hreal : linkedTree.node? ["real"] = some .directory := by decide
  have hthrough : FileTree.segmentsThrough ⟨"real"⟩ = ["real"] := by decide
  rw [FileTree.walk_link_cons linkedTree.hasDirectory_root (by decide) hnode, hthrough,
    if_neg (by decide), List.singleton_append,
    FileTree.walk_name_cons linkedTree.hasDirectory_root (by decide) hrest hreal (by simp)]
  rfl

theorem lookup_linkedTree : linkedTree.lookup ⟨"link"⟩ = .ok (["real"], .directory) := by
  have hsegments : FileTree.segmentsFor .target ⟨"link"⟩ = ["link"] := by decide
  have hresolve : linkedTree.resolve .target ⟨"link"⟩ = .ok (.taken ["real"]) := by
    rw [FileTree.resolve_eq_walk (by decide), hsegments, FileTree.linkLimit,
      walk_linkedTree (by simp), FileTree.walk_nil]
  rw [FileTree.lookup, hresolve]
  decide

private theorem filesIn_linkedTree :
    linkedTree.filesIn ⟨"link"⟩ = .ok [("main.go", .text "package real\n")] := by
  have hsegments : FileTree.segmentsFor .target ⟨"link/main.go"⟩ = ["link", "main.go"] := by
    decide
  have hreal : linkedTree.hasDirectory ["real"] = true := by decide
  have hfile : linkedTree.node? ["real", "main.go"] = some (.file (.text "package real\n")) := by
    decide
  have hlookup : linkedTree.lookup ⟨"link/main.go"⟩ =
      .ok (["real", "main.go"], .file (.text "package real\n")) := by
    have hresolve : linkedTree.resolve .target ⟨"link/main.go"⟩ =
        .ok (.taken ["real", "main.go"]) := by
      rw [FileTree.resolve_eq_walk (by decide), hsegments, FileTree.linkLimit,
        walk_linkedTree (by simp),
        FileTree.walk_name_cons hreal (by decide) (by simp) hfile (by simp),
        FileTree.walk_nil]
      rfl
    rw [FileTree.lookup, hresolve]
    decide
  have hbelow : linkedTree.below ["real"] = [(["main.go"], .file (.text "package real\n"))] := by
    decide
  have hjoin : (⟨"link"⟩ : FilePath).join ⟨"main.go"⟩ = ⟨"link/main.go"⟩ := by decide
  rw [FileTree.filesIn, lookup_linkedTree]
  simp [bind, Except.bind, pure, Except.pure, hbelow, hjoin, hlookup]

private theorem linkTarget?_linkedTree : linkedTree.linkTarget? ⟨"link"⟩ = some ⟨"real"⟩ := by
  have hsegments : FileTree.segmentsFor .entry ⟨"link"⟩ = ["link"] := by decide
  have hnode : linkedTree.node? ["link"] = some (.link ⟨"real"⟩) := by decide
  have hresolve : linkedTree.resolve .entry ⟨"link"⟩ = .ok (.taken ["link"]) := by
    rw [FileTree.resolve_eq_walk (by decide), hsegments,
      FileTree.walk_link_entry linkedTree.hasDirectory_root (by decide) hnode]
    rfl
  rw [FileTree.linkTarget?, if_neg (by decide), hresolve]
  dsimp only
  rw [hnode]

/-- A root that is named through a link is a directory with a package, and nothing restricts the
walk; yet the root is not looked at. -/
theorem not_mem_analyzed_linkedTree :
    linkedTree.lookup ⟨"link"⟩ = .ok (["real"], .directory) ∧
      analyze linkedTree ⟨"link"⟩ "m.io" = .ok (some ⟨"m.io", "real", [], []⟩) ∧
      [] ∉ analyzed linkedTree .standard ⟨"link"⟩ ∧
      PackageTree.build linkedTree ⟨"link"⟩ "m.io" .standard = .ok (.ofRoot "m.io") := by
  have hanalyzed : analyzed linkedTree .standard ⟨"link"⟩ = [] := by
    rw [analyzed, directories, lookup_linkedTree]
    dsimp only
    rw [linkTarget?_linkedTree]
    decide +kernel
  refine ⟨lookup_linkedTree, ?_, by simp [hanalyzed], ?_⟩
  · rw [analyze, filesIn_linkedTree]
    decide +kernel
  · rw [PackageTree.build, PackageTree.buildWith, FileTree.isDirectory, lookup_linkedTree]
    rw [hanalyzed]
    rfl

end GoSource

end DepSolver
