import DepSolver.Proofs.Search.Lockstep
import DepSolver.Proofs.Search.Run

/-!
Hidden paths. What a source answers about paths that are ignored or local, and about projects that
only these lead to, has no part in what a search comes to; and no ignored path is ever among the
packages that are used from a project.
-/

namespace DepSolver

/-- A path that no project is looked up for: it is ignored, or belongs to the project that is solved
or to a local one. -/
inductive Parameters.IsHidden (p : Parameters) (path : String) : Prop
  | ignored (h : p.ignored.ignores path = true)
  | own (h : p.rootTree.contains path = true)
  | inRoot (hroot : p.rootTree.importRoot ≠ "")
      (h : ImportPath.isWithin path p.rootTree.importRoot = true)
  | inLocal {root : ProjectRoot} (hroot : root ∈ p.localRoots) (h : root.contains path = true)

theorem Parameters.hides_iff {p : Parameters} {path : String} :
    p.hides path = true ↔ p.IsHidden path := by
  rw [hides, PackageTree.follows]
  simp only [Bool.or_eq_true, Bool.and_eq_true, Bool.not_eq_true', List.any_eq_true]
  constructor
  · rintro (((h | ⟨hroot, h⟩) | h) | ⟨root, hroot, h⟩)
    · exact .own h
    · exact .inRoot (by rintro heq; simp [heq] at hroot) h
    · exact .ignored h
    · exact .inLocal hroot h
  · rintro (h | h | ⟨hroot, h⟩ | ⟨hroot, h⟩)
    · exact .inl (.inr h)
    · exact .inl (.inl (.inl h))
    · exact .inl (.inl (.inr ⟨by simpa using hroot, h⟩))
    · exact .inr ⟨_, hroot, h⟩

/-- Sources that agree on the project of every path that is not hidden and on all answers about
these projects. -/
structure VersionSource.AgreesOnVisible (p : Parameters) (source source' : VersionSource) :
    Prop where
  rootOf_eq : ∀ path, ¬p.IsHidden path → source'.rootOf path = source.rootOf path
  answers_eq : ∀ path root, ¬p.IsHidden path → source.rootOf path = .ok root →
    source'.versionsOf root = source.versionsOf root ∧ ∀ version,
      source'.treeAt root version = source.treeAt root version ∧
        source'.manifestAt root version = source.manifestAt root version

namespace Search

variable {source source' : VersionSource} {p : Parameters} {s s' : SearchState}
  {work work' : List Demand} {root : ProjectRoot} {version : Version} {n : Nat}

/-! ### Answers about visible projects -/

theorem isVisible_iff {root : ProjectRoot} :
    IsVisible source p root ↔ ∃ path, ¬p.IsHidden path ∧ source.rootOf path = .ok root := by
  simp only [IsVisible, ← Bool.not_eq_true, Parameters.hides_iff]

theorem AnswersAlike.of_agreesOnVisible (h : source.AgreesOnVisible p source') :
    AnswersAlike source source' p ∅ where
  rootOf_eq path hpath := h.rootOf_eq path fun hhidden => by
    rw [Parameters.hides_iff.mpr hhidden] at hpath
    cases hpath
  versionsOf_eq root hvisible := by
    obtain ⟨path, hpath, hroot⟩ := isVisible_iff.mp hvisible
    exact (h.answers_eq path root hpath hroot).1
  treeAt_eq root version hvisible := by
    obtain ⟨path, hpath, hroot⟩ := isVisible_iff.mp hvisible
    exact ((h.answers_eq path root hpath hroot).2 version).1
  manifestAt root version hvisible := by
    obtain ⟨path, hpath, hroot⟩ := isVisible_iff.mp hvisible
    rw [((h.answers_eq path root hpath hroot).2 version).2]
    exact .refl (fun _ _ _ => rfl) _

private theorem steersAlike_self (p : Parameters) : SteersAlike p p ∅ Eq where
  hides_eq _ := rfl
  ignored_eq := rfl
  lockedVersion?_eq _ := rfl
  constraintOn_eq _ _ h root := constraintOn_congr (h.contributed_eq root (Set.notMem_empty root))
  conflict s t h root reason := by
    rintro r _ rfl
    have hcontributed := h.contributed_eq root (Set.notMem_empty root)
    rw [SearchState.contributed, SearchState.contributed] at hcontributed
    rw [SearchState.conflict, SearchState.conflict, SearchState.contributionsTo,
      SearchState.contributionsTo, hcontributed]
  attempt := by
    rintro r _ rfl
    rfl

private theorem toSolution_eq_of_agreesOff {t : SearchState} (h : s.AgreesOff ∅ t) (attempts :
    Nat) :
    t.toSolution p attempts = s.toSolution p attempts := by
  rw [SearchState.toSolution, SearchState.toSolution, h.imports_eq, h.map_selected_eq]
  intro root x y hxy
  rw [hxy.version_eq, hxy.packages_eq]

theorem run_solve_eq_of_agreesOnVisible (h : source.AgreesOnVisible p source') (limit :
    Nat) :
    (solve p limit).run source' = (solve p limit).run source := by
  have hanswers := AnswersAlike.of_agreesOnVisible h
  have hmatch := hanswers.resultsMatch_run_solve (steersAlike_self p) limit
    (hanswers.goAlike_rootDemands (steersAlike_self p) rfl rfl) rfl
  generalize (solve p limit).run source = o at hmatch ⊢
  generalize (solve p limit).run source' = o' at hmatch ⊢
  cases hmatch with
  | error herrors =>
      cases herrors with
      | same e => rfl
      | unsatisfiable hrecords => rw [hrecords]
  | ok hsolutions =>
      obtain ⟨s, t, r, _, hagrees, rfl, rfl, rfl⟩ := hsolutions
      exact congrArg Except.ok (toSolution_eq_of_agreesOff hagrees r.attempts)

/-! ### Packages in use -/

/-- The states that meeting demands and selecting versions can lead to. -/
inductive Arises (p : Parameters) : SearchState → Prop
  | empty : Arises p .empty
  | meet {s s' : SearchState} {d : Demand} {imports : SortedSet String} (hstate : Arises p s)
      (hmeet : s.meet p d = .ok (s', imports)) : Arises p s'
  | select {s s' : SearchState} {root : ProjectRoot} {version : Version} {tree : PackageTree}
      {manifest : Manifest} {imports : SortedSet String} (hstate : Arises p s)
      (hselect : s.select p root version tree manifest = .ok (s', imports)) : Arises p s'

theorem Arises.meets (h : Arises p s) (hmeets : Meets source p n s work s' work') :
    Arises p s' := by
  induction hmeets with
  | refl => exact h
  | step hmeet _ _ ih => exact ih (h.meet hmeet)

theorem Arises.decides {order : List ProjectRoot} (h : Arises p s)
    (hdecides : Decides source p order s s') : Arises p s' := by
  induction hdecides with
  | done => exact h
  | step _ _ _ _ hselects _ ih =>
      obtain ⟨-, -, hselect, -, hmeets⟩ := hselects
      exact ih ((h.select hselect).meets hmeets)

theorem exists_arises_of_run_solve {limit : Nat} {solution : Solution}
    (h : (solve p limit).run source = .ok solution) :
    ∃ s attempts, Arises p s ∧ solution = s.toSolution p attempts := by
  obtain ⟨r, hsearch⟩ := run_solve_eq_ok_iff.mp h
  obtain ⟨work, n, start, order, s, -, -, hmeets, -, hdecides, hsolution⟩ :=
    exists_decides_of_outcome_search hsearch
  exact ⟨s, r.attempts, (Arises.empty.meets hmeets).decides hdecides, hsolution⟩

private theorem ignores_eq_false_of_mem_internal {tree : PackageTree} {seeds : List String} {reach :
    Reach}
    (h : tree.reach seeds p.ignored false = .ok reach) {path : String}
    (hpath : path ∈ reach.internal) : p.ignored.ignores path = false :=
  (((PackageTree.isReach_of_reach_eq_ok h).mem_internal path).mp hpath).ignores_eq_false

theorem Arises.ignores_eq_false (h : Arises p s) {x : Selection}
    (hx : s.selected.get? root = some x) {path : String} (hpath : path ∈ x.packages) :
    p.ignored.ignores path = false := by
  induction h generalizing root x with
  | empty => cases hx
  | meet _ hmeet ih =>
      rcases SearchState.meet_eq_ok hmeet with ⟨-, rfl, -⟩ | ⟨y, hy, -, reach, hreach, rfl, -⟩
      · exact ih hx hpath
      · rw [SearchState.get?_put] at hx
        split at hx
        · cases hx
          rcases SortedSet.mem_union.mp hpath with hold | hnew
          · exact ih hy hold
          · exact ignores_eq_false_of_mem_internal hreach hnew
        · exact ih hx hpath
  | select _ hselect ih =>
      obtain ⟨reach, hreach, rfl, -⟩ := SearchState.select_eq_ok hselect
      rw [SearchState.get?_put] at hx
      split at hx
      · cases hx
        exact ignores_eq_false_of_mem_internal hreach hpath
      · exact ih hx hpath

/-- Hidden paths have no part in a search: its result does not depend on what is answered about
them, and no state of it uses a package whose path is ignored. -/
theorem hidden_paths_have_no_part (p : Parameters) (limit : Nat) :
    (∀ source source' : VersionSource, source.AgreesOnVisible p source' →
      (solve p limit).run source' = (solve p limit).run source) ∧
    (∀ s, Arises p s → ∀ root x, s.selected.get? root = some x → ∀ path ∈ x.packages,
      p.ignored.ignores path = false) ∧
    ∀ (source : VersionSource) (solution : Solution),
      (solve p limit).run source = .ok solution →
        ∃ s attempts, Arises p s ∧ solution = s.toSolution p attempts :=
  ⟨fun _ _ hsources => run_solve_eq_of_agreesOnVisible hsources limit,
    fun _ hstate _ _ hx _ hpath => hstate.ignores_eq_false hx hpath,
    fun _ _ hsolution => exists_arises_of_run_solve hsolution⟩

/-! ### A hidden project -/

/-- A project that imports `a.io` and ignores every path that starts with `b.io`. -/
def ignoringParameters : Parameters :=
  { Parameters.ofTree (MemorySource.singlePackageTree ⟨"root.io"⟩ ["a.io"]) .empty with
    ignored := ⟨.ofList [("b.io*", .startingWith "b.io")]⟩ }

/-- The chain of two projects, in which each path is a project of its own. -/
def pathwiseSource : VersionSource
  | .root path => .ok ⟨path⟩
  | q => chainSource q

/-- The same source, which fails at every question about `b.io`. -/
def failingSource : VersionSource
  | .root path => if path = "b.io" then .error (.fetch ⟨path⟩ "no answer") else .ok ⟨path⟩
  | .versions root =>
      if root.path = "b.io" then .error (.fetch root "no answer") else chainSource (.versions root)
  | .tree root version =>
      if root.path = "b.io" then .error (.fetch root "no answer")
      else chainSource (.tree root version)
  | .manifest root version =>
      if root.path = "b.io" then .error (.fetch root "no answer")
      else chainSource (.manifest root version)

private theorem pathwiseSource_agreesOnVisible_failingSource :
    pathwiseSource.AgreesOnVisible ignoringParameters failingSource := by
  have hne : ∀ path, ¬ignoringParameters.IsHidden path → path ≠ "b.io" := by
    rintro path hpath rfl
    exact hpath (.ignored (by decide +kernel))
  refine ⟨fun path hpath => if_neg (hne path hpath), fun path root hpath hroot => ?_⟩
  change Except.ok (ProjectRoot.mk path) = .ok root at hroot
  cases hroot
  exact ⟨if_neg (hne path hpath), fun version => ⟨if_neg (hne path hpath), if_neg (hne path hpath)⟩⟩

/-- The solution that leaves `b.io` out. -/
def ignoringSolution : Solution where
  projects := .ofList [(⟨"a.io"⟩, .ofPackages ⟨"a.io"⟩ (.branch "main" none) ["."])]
  imports := .ofList [(none, .ofList [⟨"a.io"⟩])]
  inputsDigest := ignoringParameters.inputsDigest
  attempts := 1

/-- The search never asks about the ignored project, and so finds the same solution. -/
theorem run_solve_failingSource :
    (solve ignoringParameters 1).run failingSource =
      (solve ignoringParameters 1).run pathwiseSource ∧
    ∃ s attempts, Arises ignoringParameters s ∧
      ignoringSolution = s.toSolution ignoringParameters attempts ∧
      ∀ root x, s.selected.get? root = some x → ∀ path ∈ x.packages,
        ignoringParameters.ignored.ignores path = false := by
  obtain ⟨hagree, hkept, hread⟩ := hidden_paths_have_no_part ignoringParameters 1
  obtain ⟨s, attempts, hstate, hsolution⟩ := hread pathwiseSource ignoringSolution
    (by decide +kernel)
  exact ⟨hagree _ _ pathwiseSource_agreesOnVisible_failingSource, s, attempts, hstate, hsolution,
    hkept s hstate⟩

end Search

end DepSolver
