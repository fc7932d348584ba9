import DepSolver.Proofs.ProjectRoot
import DepSolver.Proofs.Search.Provision

/-!
What becomes of the packages that are required without an import. A required path that has an entry
in the root tree is a package there, and a project is looked up for one outside of it, which then
lists the package. A path below the import root that has no entry is dropped.
-/

namespace DepSolver.Search

variable {replies : Replies} {p : Parameters} {s : SearchState} {solution : Solution}
  {t : List Exchange} {limit attempts : Nat} {root r : ProjectRoot} {path : String}

private theorem root_eq_of_mem_transcript {result : Except SolveError Solution}
    (h : (solve p limit).Yields t result) (hroot : ⟨.root path, .ok root⟩ ∈ t)
    (hr : ⟨.root path, .ok r⟩ ∈ t) : r = root :=
  Dialogue.Yields.eq_of_mem h rfl hr hroot

/-- A path that lies below the import root of the root tree, which has no entry for it. -/
def IsMissing (p : Parameters) (path : String) : Prop :=
  p.rootTree.contains path = false ∧ p.rootTree.importRoot ≠ "" ∧
    ImportPath.isWithin path p.rootTree.importRoot = true

private theorem isMissing_of_hides (hcontains : p.rootTree.contains path = false)
    (hkept : p.ignored.ignores path = false) (hlocal : ∀ r ∈ p.localRoots, r.contains path = false)
    (hhides : p.hides path = true) : IsMissing p path := by
  have hlocals : p.localRoots.toList.any (·.contains path) = false := by
    rw [List.any_eq_false]
    intro r hr
    rw [hlocal r (SortedSet.mem_toList.mp hr)]
    exact Bool.false_ne_true
  simpa [IsMissing, Parameters.hides, PackageTree.follows, hcontains, hkept, hlocals]
    using hhides

private theorem exists_project_of_selected {x : Selection} (hx : s.selected.get? root = some x)
    (hused : path ∈ x.packages) :
    ∃ project, (s.toSolution p attempts).project? root = some project ∧
      ∀ relative, root.relative path = some relative → relative ∈ project.packages := by
  rw [SearchState.project?_toSolution, hx]
  refine ⟨_, rfl, ?_⟩
  intro relative hrelative
  change relative ∈ (SortedSet.ofList (x.packages.toList.filterMap root.relative)).toList
  rw [SortedSet.mem_toList, SortedSet.mem_ofList]
  exact List.mem_filterMap.mpr ⟨path, SortedSet.mem_toList.mpr hused, hrelative⟩

/-- The project that a path is assigned to lists the package, unless the path is not in the project
or the project has the empty path. -/
def IsDelivered (replies : Replies) (solution : Solution) (path : String) : Prop :=
  ∃ root project, (∀ r, replies (.root path) (.ok r) ↔ r = root) ∧
    solution.project? root = some project ∧
    ((∃ relative ∈ project.packages, root.relative path = some relative) ∨
      root.contains path = false ∨ root.path = "")

private theorem isDelivered_of_selected {x : Selection}
    (hroot : ∀ r, replies (.root path) (.ok r) ↔ r = root) (hx : s.selected.get? root = some x)
    (hused : path ∈ x.packages) : IsDelivered replies (s.toSolution p attempts) path := by
  obtain ⟨project, hproject, hlists⟩ := exists_project_of_selected hx hused
  refine ⟨root, project, hroot, hproject, ?_⟩
  by_cases hlies : root.contains path = true ∧ root.path ≠ ""
  · obtain ⟨relative, hrelative⟩ := ProjectRoot.exists_relative_of_contains hlies.1 hlies.2
    exact .inl ⟨relative, hlists relative hrelative, hrelative⟩
  · right
    simpa [Classical.or_iff_not_imp_left] using hlies

/-- A required path is a package of the root tree, or the project that it is assigned to lists it,
or it is missing from the root tree. The source is arbitrary, and may change its answers. -/
theorem isDelivered_of_required (h : (solve p limit).Yields t (.ok solution))
    (hpath : path ∈ p.required) (hkept : p.ignored.ignores path = false)
    (hlocal : ∀ r ∈ p.localRoots, r.contains path = false) :
    p.rootTree.IsUsable path ∨ IsDelivered (.ofTranscript t) solution path ∨ IsMissing p path := by
  obtain ⟨husable, s, attempts, hoccurs, hdone, rfl⟩ := isResult_of_yields h
  cases hcontains : p.rootTree.contains path with
  | true => exact .inl (husable path (.seed (.inr ⟨hpath, hkept, hcontains⟩) hkept))
  | false =>
      have hserving := hoccurs.isServing
      rcases hserving.own path (.inr ⟨hpath, hkept, hcontains⟩) with
        hhides | ⟨root, hroot, hown | hclaim⟩
      · exact .inr (.inr (isMissing_of_hides hcontains hkept hlocal hhides))
      · cases hown
      · obtain ⟨x, hx, hused, -⟩ := hserving.exists_usable hdone hclaim
        refine .inr (.inl (isDelivered_of_selected ?_ hx hused))
        intro r
        constructor
        · exact root_eq_of_mem_transcript h hroot
        · rintro rfl
          exact hroot

/-- A project without imports that requires a path. -/
def requiringParameters (path : String) : Parameters :=
  { Parameters.ofTree (MemorySource.singlePackageTree ⟨"root.io"⟩ []) .empty with
    required := .ofList [path] }

theorem mem_required_requiringParameters (path : String) :
    path ∈ (requiringParameters path).required :=
  SortedSet.mem_ofList.mpr (List.mem_singleton_self path)

theorem notMem_localRoots_requiringParameters (path : String) (r : ProjectRoot) :
    r ∉ (requiringParameters path).localRoots := by
  intro hr
  cases SortedSet.mem_toList.mpr hr

/-- A source of one project without imports. -/
def leafSource : MemorySource :=
  MemorySource.empty.addRelease ⟨"a.io"⟩
    ⟨.branch "main" none, MemorySource.singlePackageTree ⟨"a.io"⟩ [], .empty⟩

def requiringSolution : Solution where
  projects := .ofList [(⟨"a.io"⟩, .ofPackages ⟨"a.io"⟩ (.branch "main" none) ["."])]
  imports := .ofList [(none, .ofList [⟨"a.io"⟩])]
  inputsDigest := (requiringParameters "a.io").inputsDigest
  attempts := 1

theorem isDelivered_requiringSolution :
    ∃ t, (solve (requiringParameters "a.io") 1).Yields t (.ok requiringSolution) ∧
      "a.io" ∈ (requiringParameters "a.io").required ∧
      IsDelivered (.ofTranscript t) requiringSolution "a.io" := by
  obtain ⟨t, hyields, -⟩ :=
    (solve (requiringParameters "a.io") 1).exists_yields_run leafSource.answer
  have hrun : (solve (requiringParameters "a.io") 1).run leafSource.answer =
      .ok requiringSolution := by
    decide +kernel
  rw [hrun] at hyields
  have hpath := mem_required_requiringParameters "a.io"
  have hlocal : ∀ r ∈ (requiringParameters "a.io").localRoots, r.contains "a.io" = false :=
    fun r hr => absurd hr (notMem_localRoots_requiringParameters _ r)
  refine ⟨t, hyields, hpath, ?_⟩
  rcases isDelivered_of_required hyields hpath (by decide +kernel) hlocal with
    ⟨y, hy⟩ | hlisted | ⟨-, -, hwithin⟩
  · cases hy
  · exact hlisted
  · exact absurd hwithin (by decide +kernel)

/-! ### A required package that does not exist -/

def lostSolution : Solution where
  projects := .empty
  imports := .empty
  inputsDigest := (requiringParameters "root.io/missing").inputsDigest
  attempts := 0

private theorem run_solve_missing :
    (solve (requiringParameters "root.io/missing") 0).run MemorySource.empty.answer =
      .ok lostSolution := by
  decide +kernel

/-- A required path below the import root for which there is no package is lost, and the search
does not fail. -/
theorem not_isDelivered_of_required :
    ¬ ∀ (source : VersionSource) (p : Parameters) (limit : Nat) (solution : Solution),
      (solve p limit).run source = .ok solution → ∀ path ∈ p.required,
        p.ignored.ignores path = false → (∀ r ∈ p.localRoots, r.contains path = false) →
          p.rootTree.IsUsable path ∨ ∃ root project, source.rootOf path = .ok root ∧
            solution.project? root = some project ∧
            ∃ relative ∈ project.packages, root.relative path = some relative := by
  intro h
  have hlocal : ∀ r ∈ (requiringParameters "root.io/missing").localRoots,
      r.contains "root.io/missing" = false :=
    fun r hr => absurd hr (notMem_localRoots_requiringParameters _ r)
  rcases h _ _ 0 _ run_solve_missing _ (mem_required_requiringParameters _) (by decide +kernel)
    hlocal with ⟨y, hy⟩ | ⟨root, project, -, hproject, -⟩
  · cases hy
  · cases hproject

end DepSolver.Search
