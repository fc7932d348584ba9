import DepSolver.Proofs.ProjectRoot
import DepSolver.Proofs.Search.Closure
import DepSolver.Proofs.Source
import DepSolver.Solution.Godeps

/-!
Which projects of a solution supply an import path. An import that leads out of a tree goes to the
innermost registered project that owns it, and one that a tree has stays in the tree. Where a tree
has packages of a project inside it, both may supply the same path; nowhere else.
-/

namespace DepSolver

/-- A path at which a project of a solution has a package. -/
def Solution.Supplies (s : Solution) (root : ProjectRoot) (path : String) : Prop :=
  ∃ project, s.project? root = some project ∧ ∃ x ∈ project.packages, root.join x = path

namespace Godeps

variable {s : Solution}

theorem nodup_importPath_entries
    (hproject : ∀ root project, s.project? root = some project →
      project.root = root ∧ project.packages.Nodup ∧ "" ∉ project.packages)
    (hunique : ∀ q r path, s.Supplies q path → s.Supplies r path → q = r) :
    ((entries s).map (·.importPath)).Nodup := by
  rw [entries]
  refine ((Sorting.sort_perm _ _).map _).nodup_iff.mpr ?_
  have hpaths : (s.projects.values.flatMap fun p => p.packages.map p.root.join).Nodup := by
    refine List.nodup_flatMap.mpr ⟨?_, ?_⟩
    · intro project hmem
      obtain ⟨root, hroot⟩ := Table.mem_values_iff.mp hmem
      obtain ⟨-, hnodup, hnonempty⟩ := hproject root project hroot
      exact hnodup.map_on fun x hx y hy =>
        ProjectRoot.join_inj (ne_of_mem_of_not_mem hx hnonempty) (ne_of_mem_of_not_mem hy hnonempty)
    · refine List.pairwise_map.mpr ((List.pairwise_map.mp s.projects.nodup_keys).imp_of_mem ?_)
      intro a b ha hb hne path hpath hpath'
      have hsupplies : ∀ c ∈ s.projects.entries, path ∈ c.2.packages.map c.2.root.join →
          s.Supplies c.1 path := by
        intro c hc hmem
        have hget := Table.get?_eq_some_iff.mpr hc
        obtain ⟨x, hx, hjoin⟩ := List.mem_map.mp hmem
        rw [(hproject c.1 c.2 hget).1] at hjoin
        exact ⟨c.2, hget, x, hx, hjoin⟩
      exact hne (hunique a.1 b.1 path (hsupplies a ha hpath) (hsupplies b hb hpath'))
  simpa [List.map_flatMap, Function.comp_def] using hpaths

end Godeps

namespace Search

variable {m : MemorySource} {p : Parameters} {s : SearchState} {q r : ProjectRoot} {path : String}
  {limit attempts : Nat} {solution : Solution}

/-- A project of a solution supplies a path of a project inside it: a package that is reached in its
tree imports the path, and the tree has it, though nothing demands the path of the project. -/
structure TakesIn (source : VersionSource) (p : Parameters) (solution : Solution)
    (outer inner : ProjectRoot) (path : String) : Prop where
  ne : inner ≠ outer
  below : ImportPath.isWithin inner.path outer.path = true
  owned : inner.contains path = true
  undemanded : path ∉ DemandedOf source p solution.version? outer
  imported : ∃ version tree importer x, solution.version? outer = some version ∧
    source.treeAt outer version = .ok tree ∧
    tree.Reaches p.ignored false (DemandedOf source p solution.version? outer) importer ∧
    tree.get? importer = some (.package x) ∧ path ∈ x.imports ∧ tree.IsUsable path

theorem exists_used_of_supplies (h : (s.toSolution p attempts).Supplies q path) :
    q.contains path = true ∧
      ∃ x, s.selected.get? q = some x ∧ (path = q.path ∨ path ∈ x.packages) := by
  obtain ⟨project, hproject, relative, hrelative, rfl⟩ := h
  rw [SearchState.project?_toSolution] at hproject
  obtain ⟨x, hx, rfl⟩ := Option.map_eq_some_iff.mp hproject
  refine ⟨q.contains_join relative, x, hx, ?_⟩
  obtain ⟨u, hu, hu'⟩ := List.mem_filterMap.mp (SortedSet.mem_ofList.mp hrelative)
  by_cases hroot : q.join relative = q.path
  · exact .inl hroot
  · rw [ProjectRoot.join_eq_of_relative hu' hroot]
    exact .inr hu

theorem IsSolved.mem_keys_projects (h : IsSolved m.answer p limit s) {x : Selection}
    (hx : s.selected.get? r = some x) : r ∈ m.projects.keys := by
  obtain ⟨listed, hlisted⟩ := (h.sound.explored.selection r x hx).versions
  obtain ⟨releases, hreleases, -⟩ := MemorySource.versionsOf_answer_eq_ok.mp hlisted
  exact Table.mem_keys_iff.mpr ⟨releases, MemorySource.get?_projects_of_releases hreleases⟩

theorem IsSolved.takesIn (h : IsSolved m.answer p limit s)
    (hq : (s.toSolution p attempts).Supplies q path)
    (hr : (s.toSolution p attempts).Supplies r path) (hne : r ≠ q)
    (hbelow : ImportPath.isWithin r.path q.path = true) :
    TakesIn m.answer p (s.toSolution p attempts) q r path := by
  obtain ⟨-, x, hx, hused⟩ := exists_used_of_supplies hq
  obtain ⟨howned, y, hy, -⟩ := exists_used_of_supplies hr
  have hlength : q.path.length < r.path.length := by
    by_contra hle
    have heq := ImportPath.eq_of_isWithin_of_length_le hbelow (Nat.le_of_not_lt hle)
    exact hne (congrArg ProjectRoot.mk heq)
  have hproper : path ≠ q.path := by
    rintro rfl
    exact absurd (ImportPath.length_le_of_isWithin howned) (Nat.not_le_of_lt hlength)
  -- What is demanded is demanded of the innermost project, so the outer one imports it by itself.
  have hundemanded : path ∉ s.needed q := by
    rw [h.needed_eq]
    rintro ⟨importer, -, hroot⟩
    have hlonger := MemorySource.length_le_length_rootOf (h.mem_keys_projects hy) howned
    rw [show m.rootOf path = q from Except.ok.inj hroot] at hlonger
    exact absurd hlonger (Nat.not_le_of_lt hlength)
  have hselection := h.sound.explored.selection q x hx
  have hpath := hused.resolve_left hproper
  have husable := hselection.usable path hpath
  have hversion := SearchState.version?_of_get? hx
  have hneeded := h.needed_eq q
  rw [← @SearchState.version?_toSolution s p attempts] at hversion hneeded
  cases (hselection.packages path).mp hpath with
  | seed hmem _ => exact absurd hmem hundemanded
  | @step importer _ z himporter hfound hmem _ =>
      rw [hneeded] at hundemanded himporter
      have himport : path ∈ z.imports := by simpa [PackageTree.importsOf] using hmem
      exact ⟨hne, hbelow, howned, hundemanded, x.version, x.tree, importer, z, hversion,
        hselection.tree, himporter, hfound, himport, husable⟩

/-- A path that two projects supply is one that the outer of them takes in. -/
theorem IsSolved.eq_or_takesIn (h : IsSolved m.answer p limit s)
    (hq : (s.toSolution p attempts).Supplies q path)
    (hr : (s.toSolution p attempts).Supplies r path) :
    q = r ∨ TakesIn m.answer p (s.toSolution p attempts) q r path ∨
      TakesIn m.answer p (s.toSolution p attempts) r q path := by
  by_cases heq : q = r
  · exact .inl heq
  · rcases ImportPath.isWithin_total (exists_used_of_supplies hq).1
        (exists_used_of_supplies hr).1 with hbelow | hbelow
    · exact .inr (.inr (h.takesIn hr hq heq hbelow))
    · exact .inr (.inl (h.takesIn hq hr (Ne.symm heq) hbelow))

/-- A path has one project, unless a project takes it in from another one inside it. If none does,
and no package stands at a root followed by a slash, an export lists no path twice. -/
theorem eq_or_takesIn_of_run_solve (h : (solve p limit).run m.answer = .ok solution) :
    (∀ q r path, solution.Supplies q path → solution.Supplies r path →
      q = r ∨ TakesIn m.answer p solution q r path ∨ TakesIn m.answer p solution r q path) ∧
    ((∀ outer inner path, ¬ TakesIn m.answer p solution outer inner path) →
      (∀ root project, solution.project? root = some project → "" ∉ project.packages) →
        ((Godeps.entries solution).map (·.importPath)).Nodup) := by
  obtain ⟨s, attempts, hsolved, rfl⟩ := isSolved_of_run_solve h
  refine ⟨fun q r path => hsolved.eq_or_takesIn, ?_⟩
  intro hnone hnonempty
  refine Godeps.nodup_importPath_entries ?_ ?_
  · intro root project hproject
    refine ⟨?_, ?_, hnonempty root project hproject⟩
    all_goals
      rw [SearchState.project?_toSolution] at hproject
      obtain ⟨x, -, rfl⟩ := Option.map_eq_some_iff.mp hproject
    · rfl
    · exact SortedSet.nodup_toList _
  · intro q r path hq hr
    exact (hsolved.eq_or_takesIn hq hr).resolve_right fun htaken =>
      htaken.elim (hnone q r path) (hnone r q path)

/-! ### A project inside another one -/

/-- The tree of `a.io`, which has a package at the root of the project `a.io/b` inside it. -/
def outerTree (imports : List String) : PackageTree :=
  (MemorySource.singlePackageTree ⟨"a.io"⟩ imports).insertPackage ⟨"a.io/b", "b", [], []⟩

/-- A source of both projects, where the package at `a.io` has some imports. -/
def nestedSource (imports : List String) : MemorySource :=
  (MemorySource.empty.addRelease ⟨"a.io"⟩
    ⟨.branch "main" none, outerTree imports, .empty⟩).addRelease ⟨"a.io/b"⟩
    ⟨.branch "main" none, MemorySource.singlePackageTree ⟨"a.io/b"⟩ [], .empty⟩

/-- A project that imports both. -/
def nestedParameters : Parameters :=
  .ofTree (MemorySource.singlePackageTree ⟨"root.io"⟩ ["a.io", "a.io/b"])
    (.ofManifest "root.io" .empty)

/-- The solution in which some packages of `a.io` are used. -/
def nestedSolution (packages : List String) : Solution where
  projects := .ofList
    [(⟨"a.io"⟩, .ofPackages ⟨"a.io"⟩ (.branch "main" none) packages),
      (⟨"a.io/b"⟩, .ofPackages ⟨"a.io/b"⟩ (.branch "main" none) ["."])]
  imports := .ofList [(none, .ofList [⟨"a.io"⟩, ⟨"a.io/b"⟩])]
  inputsDigest := nestedParameters.inputsDigest
  attempts := 2

private theorem not_takesIn_nestedSource (outer inner : ProjectRoot) (path : String) :
    ¬ TakesIn (nestedSource []).answer p solution outer inner path := by
  intro h
  obtain ⟨version, tree, importer, x, -, htree, -, hfound, himport, -⟩ := h.imported
  obtain ⟨release, hrelease, rfl⟩ := MemorySource.treeAt_answer_eq_ok.mp htree
  obtain ⟨releases, hreleases, hmem, -⟩ := MemorySource.mem_releases_of_release hrelease
  have hprojects := MemorySource.get?_projects_of_releases hreleases
  have hrelease : release.tree = outerTree [] ∨
      release.tree = MemorySource.singlePackageTree ⟨"a.io/b"⟩ [] := by
    rw [nestedSource, MemorySource.addRelease, Table.get?_insert] at hprojects
    split at hprojects
    · cases hprojects
      exact .inr (congrArg Release.tree (List.mem_singleton.mp hmem))
    · rw [MemorySource.addRelease, Table.get?_insert] at hprojects
      split at hprojects
      · cases hprojects
        exact .inl (congrArg Release.tree (List.mem_singleton.mp hmem))
      · cases hprojects
  have hnone : ∀ y ∈ release.tree.validPackages, y.imports = [] := by
    rcases hrelease with heq | heq
    all_goals
      rw [heq]
      decide +kernel
  rw [hnone x (PackageTree.mem_validPackages hfound)] at himport
  cases himport

theorem nodup_importPath_nestedSource :
    (∀ q r path, (nestedSolution ["."]).Supplies q path → (nestedSolution ["."]).Supplies r path →
      q = r ∨ TakesIn (nestedSource []).answer nestedParameters (nestedSolution ["."]) q r path ∨
        TakesIn (nestedSource []).answer nestedParameters (nestedSolution ["."]) r q path) ∧
      ((Godeps.entries (nestedSolution ["."])).map (·.importPath)).Nodup := by
  have hrun : (solve nestedParameters 2).run (nestedSource []).answer =
      .ok (nestedSolution ["."]) := by
    decide +kernel
  obtain ⟨hunique, hnodup⟩ := eq_or_takesIn_of_run_solve hrun
  refine ⟨hunique, hnodup not_takesIn_nestedSource ?_⟩
  intro root project hproject
  have hall : ∀ project ∈ (nestedSolution ["."]).projects.values, "" ∉ project.packages := by
    decide +kernel
  exact hall project (Table.mem_values_iff.mpr ⟨root, hproject⟩)

/-- If its package imports that of `a.io/b`, the path has two projects and is listed twice. -/
theorem not_supplies_once :
    ¬ ∀ (m : MemorySource) (p : Parameters) (limit : Nat) (solution : Solution),
      (solve p limit).run m.answer = .ok solution →
        (∀ q r path, solution.Supplies q path → solution.Supplies r path → q = r) ∧
          ((Godeps.entries solution).map (·.importPath)).Nodup := by
  intro h
  have hrun : (solve nestedParameters 2).run (nestedSource ["a.io/b"]).answer =
      .ok (nestedSolution [".", "b"]) := by
    decide +kernel
  obtain ⟨-, hnodup⟩ := h _ _ _ _ hrun
  revert hnodup
  decide +kernel

end Search

end DepSolver
