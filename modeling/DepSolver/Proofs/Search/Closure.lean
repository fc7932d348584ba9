import DepSolver.Proofs.Search.Run

/-!
A solution is the closure of the imports of its own versions: its projects are those of the imports
that these versions demand, no more and no fewer, with just the packages that are demanded of them.
-/

namespace DepSolver

namespace SearchState

variable {s : SearchState} {p : Parameters} {attempts : Nat} {root : ProjectRoot}

theorem project?_toSolution : (s.toSolution p attempts).project? root =
    (s.selected.get? root).map fun x =>
      { LockedProject.ofPackages root x.version (x.packages.toList.filterMap root.relative) with
        source := (p.constraints.effective? root).bind (·.source) } :=
  Table.get?_map _ _ _

theorem version?_toSolution : (s.toSolution p attempts).version? = s.version? := by
  funext root
  rw [Solution.version?, project?_toSolution, Option.map_map]
  rfl

theorem mem_importsOf_toSolution {importer : Option ProjectRoot} {target : ProjectRoot} :
    target ∈ (s.toSolution p attempts).importsOf importer ↔ s.imports.Relates importer target := by
  change target ∈ (s.imports.get? importer).elim [] (·.toList) ↔ _
  rw [Table.Relates]
  cases s.imports.get? importer <;> simp

end SearchState

namespace Search

variable {source : VersionSource} {p : Parameters} {s : SearchState} {root : ProjectRoot}
  {limit : Nat} {solution : Solution}

/-- A solution holds what its own versions demand and nothing else. -/
structure IsImportClosure (source : VersionSource) (p : Parameters) (solution : Solution) :
    Prop where
  resolved : ∀ importer path, Demanded source p solution.version? importer path →
    ∃ root, source.rootOf path = .ok root
  projects : ∀ root, (∃ project, solution.project? root = some project) ↔
    ∃ path, path ∈ DemandedOf source p solution.version? root
  packages : ∀ root project, solution.project? root = some project → ∃ tree seeds reach,
    source.treeAt root project.version = .ok tree ∧
    (∀ path, path ∈ seeds ↔ path ∈ DemandedOf source p solution.version? root) ∧
    tree.reach seeds p.ignored false = .ok reach ∧
    project.packages = (SortedSet.ofList (reach.internal.toList.filterMap root.relative)).toList
  imports : ∀ importer target, target ∈ solution.importsOf importer ↔
    ∃ path, Demanded source p solution.version? importer path ∧ source.rootOf path = .ok target

/-- When nothing is pending, what is needed of a project is all that is demanded of it. -/
theorem IsSolved.needed_eq (h : IsSolved source p limit s) (root : ProjectRoot) :
    s.needed root = DemandedOf source p s.version? root :=
  h.sound.explored.needed_eq root

theorem IsSolved.relates_imports_iff (h : IsSolved source p limit s)
    {importer : Option ProjectRoot} {target : ProjectRoot} :
    s.imports.Relates importer target ↔
      ∃ path, Demanded source p s.version? importer path ∧ source.rootOf path = .ok target := by
  constructor
  · exact h.sound.explored.imports importer target
  · rintro ⟨path, hdemanded, hroot⟩
    obtain ⟨target', x, htarget, -, himports, -⟩ :=
      h.sound.explored.demanded_recorded h.done hdemanded
    rw [hroot, Except.ok.injEq] at htarget
    rwa [htarget]

theorem IsSolved.selected_iff (h : IsSolved source p limit s) :
    (∃ x, s.selected.get? root = some x) ↔ ∃ path, path ∈ DemandedOf source p s.version? root := by
  rw [← h.needed_eq root]
  constructor
  · rintro ⟨x, hx⟩
    obtain ⟨set, hset⟩ := Table.mem_keys_iff.mp (h.sound.explored.selection root x hx).required
    exact h.sound.explored.requiredProper.exists_relates hset
  · rintro ⟨path, hneeded⟩
    apply SearchState.exists_selected_of_pending_eq_nil h.done
    exact Table.mem_keys_of_relates hneeded

theorem IsSolved.reach_needed (h : IsSolved source p limit s) {x : Selection}
    (hx : s.selected.get? root = some x) : ∃ seeds reach,
      (∀ path, path ∈ seeds ↔ path ∈ s.needed root) ∧
      x.tree.reach seeds p.ignored false = .ok reach ∧ reach.internal = x.packages := by
  have hselection := h.sound.explored.selection root x hx
  have hseeds := SearchState.setOf_mem_required s root
  have hreach : ∃ reach,
      x.tree.reach ((s.required.get? root).getD .empty).toList p.ignored false = .ok reach := by
    apply PackageTree.exists_reach_eq_ok_iff.mpr
    rw [hseeds]
    intro path hpath
    exact hselection.usable path ((hselection.packages path).mpr hpath)
  obtain ⟨reach, hreach⟩ := hreach
  have hspec := PackageTree.isReach_of_reach_eq_ok hreach
  rw [hseeds] at hspec
  refine ⟨_, reach, fun path => Set.ext_iff.mp hseeds path, hreach, ?_⟩
  apply SortedSet.ext
  intro path
  rw [hspec.mem_internal, hselection.packages]

theorem isImportClosure_of_run_solve (h : (solve p limit).run source = .ok solution) :
    IsImportClosure source p solution := by
  obtain ⟨s, attempts, hsolved, rfl⟩ := isSolved_of_run_solve h
  constructor
  · intro importer path hdemanded
    rw [SearchState.version?_toSolution] at hdemanded
    obtain ⟨target, x, htarget, -⟩ :=
      hsolved.sound.explored.demanded_recorded hsolved.done hdemanded
    exact ⟨target, htarget⟩
  · intro root
    rw [SearchState.version?_toSolution, SearchState.project?_toSolution, ← hsolved.selected_iff]
    cases s.selected.get? root <;> simp
  · intro root project hproject
    rw [SearchState.project?_toSolution] at hproject
    obtain ⟨x, hx, rfl⟩ := Option.map_eq_some_iff.mp hproject
    obtain ⟨seeds, reach, hseeds, hreach, hinternal⟩ := hsolved.reach_needed hx
    rw [hsolved.needed_eq root, ← SearchState.version?_toSolution (p := p)] at hseeds
    refine ⟨x.tree, seeds, reach, (hsolved.sound.explored.selection root x hx).tree, hseeds, hreach,
      ?_⟩
    rw [hinternal]
    rfl
  · intro importer target
    rw [SearchState.mem_importsOf_toSolution, SearchState.version?_toSolution]
    exact hsolved.relates_imports_iff

theorem isImportClosure_chainSolution :
    IsImportClosure chainSource (chainParameters ⟨"a.io"⟩ "main") chainSolution :=
  isImportClosure_of_run_solve
    (show (solve (chainParameters ⟨"a.io"⟩ "main") 2).run chainSource = .ok chainSolution by
      decide +kernel)

end Search

end DepSolver
