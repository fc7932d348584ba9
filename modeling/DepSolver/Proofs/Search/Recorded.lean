import DepSolver.Proofs.ProjectRoot
import DepSolver.Proofs.Search.Closure

/-!
The packages that a lock records for a project. They are relative to its root, and stand for the
paths that are used of it, as far as the root has a relative path for each of these and the relative
path is not taken for the root.
-/

namespace DepSolver

/-- A recorded package stands for an import path. -/
def LockedProject.Covers (x : LockedProject) (path : String) : Prop :=
  ∃ package ∈ x.packages, x.root.join package = path

/-- What packages recorded relative to their root stand for: the paths that they were taken from
and, if one of these is mistaken, the root. -/
theorem LockedProject.covers_iff {x : LockedProject} {used : SortedSet String}
    (h : x.packages = (SortedSet.ofList (used.toList.filterMap x.root.relative)).toList)
    {path : String} : x.Covers path ↔
      (path ∈ used ∧ x.root.contains path = true ∧ ¬ x.root.IsUnrelated path ∧
        ¬ x.root.IsMistaken path) ∨
      (path = x.root.path ∧ ∃ other ∈ used, x.root.IsMistaken other) := by
  have hmem : ∀ package, package ∈ x.packages ↔
      ∃ other ∈ used, x.root.relative other = some package := by
    intro package
    rw [h, SortedSet.mem_toList, SortedSet.mem_ofList, List.mem_filterMap]
    simp only [SortedSet.mem_toList]
  rw [Covers]
  simp only [hmem]
  constructor
  · rintro ⟨package, ⟨other, hused, hrelative⟩, rfl⟩
    obtain ⟨hcontains, hrelated⟩ := ProjectRoot.exists_relative_iff.mp ⟨package, hrelative⟩
    rw [ProjectRoot.join_relative hrelative]
    by_cases hmistaken : x.root.IsMistaken other
    · rw [if_pos hmistaken]
      exact .inr ⟨rfl, other, hused, hmistaken⟩
    · rw [if_neg hmistaken]
      exact .inl ⟨hused, hcontains, hrelated, hmistaken⟩
  · rintro (⟨hused, hcontains, hrelated, hmistaken⟩ | ⟨rfl, other, hused, hmistaken⟩)
    · obtain ⟨package, hrelative⟩ := ProjectRoot.exists_relative_iff.mpr ⟨hcontains, hrelated⟩
      refine ⟨package, ⟨path, hused, hrelative⟩, ?_⟩
      rw [ProjectRoot.join_relative hrelative, if_neg hmistaken]
    · obtain ⟨package, hrelative⟩ := hmistaken.exists_relative
      refine ⟨package, ⟨other, hused, hrelative⟩, ?_⟩
      rw [ProjectRoot.join_relative hrelative, if_pos hmistaken]

namespace Search

variable {source : VersionSource} {p : Parameters} {limit : Nat} {solution : Solution}

/-- A path has a relative path just if it belongs to the project, unless it is unrelated; the
relative path stands for it, unless it is mistaken. So the packages in the lock of a solution stand
for the paths that are used of each project, apart from those. -/
theorem covers_iff_of_run_solve (h : (solve p limit).run source = .ok solution) :
    (∀ (root : ProjectRoot) path, (∃ relative, root.relative path = some relative) ↔
      root.contains path = true ∧ ¬ root.IsUnrelated path) ∧
    (∀ (root : ProjectRoot) path relative, root.relative path = some relative →
      root.join relative = if root.IsMistaken path then root.path else path) ∧
    ∀ x ∈ solution.toLock.projects, ∃ tree, source.treeAt x.root x.version = .ok tree ∧
      ∀ path, x.Covers path ↔
        (tree.Reaches p.ignored false (DemandedOf source p solution.version? x.root) path ∧
          x.root.contains path = true ∧ ¬ x.root.IsUnrelated path ∧ ¬ x.root.IsMistaken path) ∨
        (path = x.root.path ∧ ∃ other, x.root.IsMistaken other ∧
          tree.Reaches p.ignored false (DemandedOf source p solution.version? x.root) other) := by
  refine ⟨fun _ _ => ProjectRoot.exists_relative_iff, fun _ _ _ => ProjectRoot.join_relative, ?_⟩
  intro x hx
  obtain ⟨s, attempts, hsolved, rfl⟩ := isSolved_of_run_solve h
  obtain ⟨root, hroot⟩ := Table.mem_values_iff.mp (Sorting.mem_sort.mp hx)
  change (s.toSolution p attempts).project? root = some x at hroot
  rw [SearchState.project?_toSolution] at hroot
  obtain ⟨selection, hselection, rfl⟩ := Option.map_eq_some_iff.mp hroot
  have hexplored := hsolved.sound.explored.selection root selection hselection
  refine ⟨selection.tree, hexplored.tree, fun path => ?_⟩
  rw [LockedProject.covers_iff (show _ = (SortedSet.ofList
    (selection.packages.toList.filterMap (ProjectRoot.relative _))).toList from rfl)]
  simp only [hexplored.packages, hsolved.needed_eq, SearchState.version?_toSolution, and_comm]
  rfl

/-- One package is recorded for `b.io`; a path below it, for which none stands, is not used. -/
theorem covers_chainSolution : ∃ x ∈ chainSolution.toLock.projects,
    x.Covers "b.io" ∧ ¬ x.Covers "b.io/sub" ∧
    ∃ tree, chainSource.treeAt x.root x.version = .ok tree ∧
      ¬ tree.Reaches (chainParameters ⟨"a.io"⟩ "main").ignored false
        (DemandedOf chainSource (chainParameters ⟨"a.io"⟩ "main") chainSolution.version? x.root)
        "b.io/sub" := by
  have hrun : (solve (chainParameters ⟨"a.io"⟩ "main") 2).run chainSource = .ok chainSolution := by
    decide +kernel
  let x : LockedProject := .ofPackages ⟨"b.io"⟩ (.branch "main" none) ["."]
  have hmem : x ∈ chainSolution.toLock.projects := by decide
  have hbelow : ¬ x.Covers "b.io/sub" := by
    rw [LockedProject.Covers]
    decide
  obtain ⟨tree, htree, hcovers⟩ := (covers_iff_of_run_solve hrun).2.2 x hmem
  refine ⟨x, hmem, ⟨".", by decide, by decide⟩, hbelow, tree, htree, fun hreaches => hbelow ?_⟩
  exact (hcovers "b.io/sub").mpr (.inl ⟨hreaches, by decide, by decide, by decide⟩)

/-- A path within the empty root need not have a relative path, and a root with a slash is read back
as the root alone. -/
theorem not_join_relative_eq :
    (¬ ∀ (root : ProjectRoot) (path : String), root.contains path = true →
      ∃ relative, root.relative path = some relative) ∧
    ¬ ∀ (root : ProjectRoot) (path relative : String), root.relative path = some relative →
      root.join relative = path := by
  constructor
  · intro h
    obtain ⟨relative, hrelative⟩ := h ⟨""⟩ "a" (by decide)
    exact absurd hrelative (by simp [show ProjectRoot.relative ⟨""⟩ "a" = none by decide])
  · intro h
    exact absurd (h ⟨"a.io"⟩ "a.io/" "" (by decide)) (by decide)

end Search

end DepSolver
