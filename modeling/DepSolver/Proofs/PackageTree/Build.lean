import DepSolver.GoSource.Walk
import DepSolver.Proofs.Disk.FileTree
import DepSolver.Proofs.Except
import DepSolver.Proofs.ProjectRoot
import Mathlib.Data.List.Basic

/-!
The packages in a directory. All of them stand below the import root. A project whose files all
stand in its directory has the package of these files and no other one.
-/

namespace DepSolver

namespace FileTree

variable {t : FileTree} {files : List (String × FileContent)}

/-- The tree holds nothing but some files in its root, in order of their names. -/
structure IsFlat (t : FileTree) (files : List (String × FileContent)) : Prop where
  below : t.below [] = files.map fun x => ([x.1], .file x.2)
  lookup : ∀ x ∈ files, t.lookup ((⟨"."⟩ : FilePath).join ⟨x.1⟩) = .ok ([x.1], .file x.2)

theorem IsFlat.filesIn (h : t.IsFlat files) : t.filesIn ⟨"."⟩ = .ok files := by
  rw [FileTree.filesIn, lookup_here]
  simp only [bind, Except.bind, pure, Except.pure, h.below, List.filterMap_map]
  congr 1
  conv_rhs => rw [← List.filterMap_some (l := files)]
  apply List.filterMap_congr
  intro x hx
  simp [h.lookup x hx]

theorem isFlat_of_isName (hbelow : t.below [] = files.map fun x => ([x.1], .file x.2))
    (hnames : ∀ x ∈ files, pathError? ((⟨"."⟩ : FilePath).join ⟨x.1⟩) = none ∧
      segmentsFor .target ((⟨"."⟩ : FilePath).join ⟨x.1⟩) = [".", x.1] ∧ IsName x.1) :
    t.IsFlat files := by
  refine ⟨hbelow, fun x hx => ?_⟩
  obtain ⟨hpath, hsegments, hname⟩ := hnames x hx
  have hmem : ([x.1], .file x.2) ∈ t.below [] := hbelow ▸ List.mem_map_of_mem hx
  obtain ⟨⟨place, n⟩, hentry, hplace⟩ := List.mem_filterMap.mp hmem
  simp only [Option.ite_none_right_eq_some, Option.some_inj, Prod.mk.injEq, List.length_nil,
    List.drop_zero] at hplace
  obtain ⟨-, rfl, rfl⟩ := hplace
  exact lookup_name hpath hsegments hname (Table.get?_eq_some_iff.mpr hentry)

/-- A tree with one file, in its root. -/
def ofMainFile (content : FileContent) : FileTree := empty.insert ["main.go"] (.file content)

theorem isFlat_ofMainFile (content : FileContent) :
    (ofMainFile content).IsFlat [("main.go", content)] := by
  have hname : pathError? ((⟨"."⟩ : FilePath).join ⟨"main.go"⟩) = none ∧
      segmentsFor .target ((⟨"."⟩ : FilePath).join ⟨"main.go"⟩) = [".", "main.go"] ∧
      IsName "main.go" := by decide +kernel
  exact isFlat_of_isName rfl (List.forall_mem_singleton.mpr hname)

end FileTree

/-- The tree has a root, and packages nowhere but below it. -/
structure PackageTree.IsRooted (tree : PackageTree) (importRoot : String) : Prop where
  importRoot_eq : tree.importRoot = importRoot
  within : ∀ path, tree.contains path = true → ImportPath.isWithin path importRoot = true

theorem PackageTree.isRooted_ofRoot (importRoot : String) :
    (ofRoot importRoot).IsRooted importRoot :=
  ⟨rfl, nofun⟩

namespace GoSource

variable {t : FileTree} {files : List (String × FileContent)}

private theorem isWithin_importPathOf (importRoot : String) (place : List String) :
    ImportPath.isWithin (importPathOf importRoot place) importRoot = true := by
  rw [ImportPath.isWithin_iff, importPathOf]
  split
  · exact ⟨[], by simp, .inr (.inl rfl)⟩
  · dsimp only
    split
    · rename_i hempty
      have hroot := String.isEmpty_iff.mp hempty
      exact ⟨("/".intercalate place).toList, by simp [hroot], .inl hroot⟩
    · exact ⟨'/' :: ("/".intercalate place).toList, by simp, .inr (.inr ⟨_, rfl⟩)⟩

private theorem importPath_eq_of_packageOf {importPath : String} {package : Package}
    (h : packageOf files importPath = .ok (some package)) : package.importPath = importPath := by
  obtain ⟨summary, -, hpackage⟩ := exists_of_bind_eq_ok h
  obtain ⟨name, -, rfl⟩ := Option.map_eq_some_iff.mp (Except.ok.inj hpackage)
  rfl

/-- What an analyzer finds in a directory, as it is put into a tree. -/
def entryOf? (found : Except String (Option Package)) : Option PackageEntry :=
  match found with
  | .ok package? => package?.map .package
  | .error message => some (.broken message)

theorem addDirectory_eq (analyzer : Analyzer) (rootDir : FilePath) (tree : PackageTree)
    (place : List String) :
    addDirectory analyzer rootDir tree place =
      match entryOf? (analyzer (pathOf rootDir place) (importPathOf tree.importRoot place)) with
      | some entry =>
          { tree with
            packages := tree.packages.insert (importPathOf tree.importRoot place) entry }
      | none => tree := by
  rw [addDirectory]
  rcases analyzer (pathOf rootDir place) (importPathOf tree.importRoot place) with
    message | _ | package
  · rfl
  · rfl
  · rfl

theorem importRoot_addDirectory (analyzer : Analyzer) (rootDir : FilePath) (tree : PackageTree)
    (place : List String) :
    (addDirectory analyzer rootDir tree place).importRoot = tree.importRoot := by
  rw [addDirectory_eq]
  split <;> rfl

theorem get?_addDirectory (analyzer : Analyzer) (rootDir : FilePath) (tree : PackageTree)
    (place : List String) (path : String) :
    (addDirectory analyzer rootDir tree place).get? path =
      if path = importPathOf tree.importRoot place then
        (entryOf? (analyzer (pathOf rootDir place) path)).or (tree.get? path)
      else tree.get? path := by
  rw [addDirectory_eq]
  by_cases hpath : path = importPathOf tree.importRoot place
  · rw [if_pos hpath, ← hpath]
    split
    · rename_i entry hentry
      rw [hentry, PackageTree.get?, Table.get?_insert_self]
      rfl
    · rename_i hentry
      rw [hentry]
      rfl
  · rw [if_neg hpath]
    split
    · rw [PackageTree.get?, Table.get?_insert, if_neg hpath]
      rfl
    · rfl

private theorem isRooted_addDirectory {tree : PackageTree} {importRoot : String}
    (h : tree.IsRooted importRoot) (analyzer : Analyzer) (rootDir : FilePath)
    (place : List String) :
    (addDirectory analyzer rootDir tree place).IsRooted importRoot := by
  refine ⟨by rw [importRoot_addDirectory, h.importRoot_eq], fun path hpath => ?_⟩
  have hget : (addDirectory analyzer rootDir tree place).contains path =
      ((addDirectory analyzer rootDir tree place).get? path).isSome := rfl
  rw [hget, get?_addDirectory] at hpath
  split at hpath
  · rename_i hplace
    rw [hplace, h.importRoot_eq]
    exact isWithin_importPathOf importRoot place
  · exact h.within path hpath

private theorem isRooted_foldl_addDirectory {tree : PackageTree} {importRoot : String}
    {rootDir : FilePath} (h : tree.IsRooted importRoot) (analyzer : Analyzer)
    (places : List (List String)) :
    (places.foldl (addDirectory analyzer rootDir) tree).IsRooted importRoot := by
  induction places generalizing tree with
  | nil => exact h
  | cons place places ih => exact ih (isRooted_addDirectory h analyzer rootDir place)

private theorem subdirectories_of_isFlat (h : t.IsFlat files) : t.subdirectories [] = [] := by
  rw [FileTree.subdirectories, h.below, List.filterMap_map]
  simp

private theorem directories_of_isFlat (h : t.IsFlat files) : directories t .standard ⟨"."⟩ = [[]]
    := by
  have hinside : visitBelow t BuildOptions.standard.enters [] t.nodes.size [] = [] := by
    cases t.nodes.size with
    | zero => rfl
    | succ levels => rw [visitBelow, List.append_nil, subdirectories_of_isFlat h]; rfl
  rw [directories, FileTree.lookup_here]
  simp only [FileTree.linkTarget?_here, hinside]
  rfl

private theorem addDirectory_of_isFlat {tree : PackageTree} {package : Package} (h : t.IsFlat files)
    (hpackage : packageOf files tree.importRoot = .ok (some package)) :
    addDirectory (analyze t) ⟨"."⟩ tree [] = tree.insertPackage package := by
  have hpath : importPathOf tree.importRoot [] = tree.importRoot := rfl
  rw [addDirectory, hpath, pathOf, List.foldl_nil, analyze, h.filesIn]
  dsimp only
  rw [hpackage, PackageTree.insertPackage, importPath_eq_of_packageOf hpackage]

end GoSource

theorem PackageTree.isRooted_of_buildWith {analyzer : GoSource.Analyzer} {t : FileTree}
    {rootDir : FilePath} {importRoot : String} {o : BuildOptions} {tree : PackageTree}
    (h : buildWith analyzer t rootDir importRoot o = .ok tree) : tree.IsRooted importRoot := by
  rw [buildWith] at h
  split at h
  · cases h
  · rw [← Except.ok.inj h]
    exact GoSource.isRooted_foldl_addDirectory (isRooted_ofRoot importRoot) analyzer _

theorem PackageTree.build_of_isFlat {t : FileTree} {files : List (String × FileContent)}
    {importRoot : String} {package : Package} (h : t.IsFlat files)
    (hpackage : GoSource.packageOf files importRoot = .ok (some package)) :
    build t ⟨"."⟩ importRoot .standard = .ok ((ofRoot importRoot).insertPackage package) := by
  have hanalyzes : [[]].filter BuildOptions.standard.analyzes = [[]] := by decide +kernel
  have hadd : GoSource.addDirectory (GoSource.analyze t) ⟨"."⟩ (ofRoot importRoot) [] = _ :=
    GoSource.addDirectory_of_isFlat h hpackage
  rw [build, buildWith, FileTree.isDirectory, FileTree.lookup_here, GoSource.analyzed,
    GoSource.directories_of_isFlat h, hanalyzes, List.foldl_cons, List.foldl_nil, hadd]
  rfl

end DepSolver
