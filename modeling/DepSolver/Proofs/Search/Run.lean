import DepSolver.Proofs.Search.Exploration

/-!
Solutions. A search meets the first demands and goes on to explore the state in which they are met;
its solution is read off a state that keeps the invariants and in which nothing is pending.
-/

namespace DepSolver.Search

variable {source : VersionSource} {p : Parameters} {s s' : SearchState} {root : ProjectRoot}
  {version : Version} {work work' : List Demand} {r r' : SearchRecord}
  {order : List ProjectRoot} {limit n : Nat}

/-! ### The state of a solution -/

/-- What holds of the state that a solution is read off. -/
structure IsSolved (source : VersionSource) (p : Parameters) (limit : Nat) (s : SearchState) :
    Prop where
  sound : IsSound source p s []
  done : s.pending = []
  size_le : s.selected.size ≤ limit
  usable : ∀ path, p.rootTree.Reaches p.ignored true p.rootSeeds path → p.rootTree.IsUsable path

/-- A state is reached from the one in which the first demands are met, by decisions in an order. -/
structure IsSolvedAlong (source : VersionSource) (p : Parameters) (limit : Nat)
    (start : SearchState) (order : List ProjectRoot) (s : SearchState) : Prop where
  sound : IsSound source p start []
  unselected : start.selected = .empty
  decides : Decides source p order start s
  length_le : order.length ≤ limit
  usable : ∀ path, p.rootTree.Reaches p.ignored true p.rootSeeds path → p.rootTree.IsUsable path

theorem IsSolvedAlong.isSolved {start : SearchState}
    (h : IsSolvedAlong source p limit start order s) : IsSolved source p limit s where
  sound := h.sound.decides h.decides
  done := h.decides.pending_eq_nil
  size_le := by
    have hempty : (Table.empty : Table ProjectRoot Selection).size = 0 := rfl
    rw [h.decides.size_eq, h.unselected, hempty, Nat.zero_add]
    exact h.length_le
  usable := h.usable

theorem IsSolvedAlong.exists_candidate {start : SearchState}
    (h : IsSolvedAlong source p limit start order s) (hversion : s.version? root = some version) :
    ∃ (t : SearchState) (listed : List Version), source.versionsOf root = .ok listed ∧
      version ∈ t.candidates p root listed := by
  rcases h.decides.exists_candidate hversion with hstart | hcandidate
  · rw [SearchState.version?, h.unselected] at hstart
    cases hstart
  · exact hcandidate

theorem Meets.selected_eq_empty (h : Meets source p n .empty work s' work') :
    s'.selected = .empty := by
  apply Table.ext
  intro root
  have hversion := congrFun h.version?_eq root
  exact Option.map_eq_none_iff.mp hversion

theorem IsSound.start {imports : SortedSet String}
    (himports : ∀ path, path ∈ imports ↔ p.RootImports path)
    (hwork : IsWorkOf source p none imports.toList work) : IsSound source p .empty work :=
  ⟨.start himports hwork, .empty, .empty p⟩

theorem isSound_of_outcome_rootDemands (h : outcome source (rootDemands p) r = .ok (work, r')) :
    IsSound source p .empty work ∧
      ∀ path, p.rootTree.Reaches p.ignored true p.rootSeeds path → p.rootTree.IsUsable path := by
  rcases @outcome_rootDemands source p r with ⟨imports, work', hok, himports, hwork, husable⟩ |
    ⟨path, message, herror, -⟩ | ⟨path, e, -, -, -, herror⟩
  · rw [hok] at h
    cases h
    exact ⟨.start himports hwork, husable⟩
  · rw [herror] at h
    cases h
  · rw [herror] at h
    cases h

theorem outcome_search_of_meetAll {start : SearchState}
    (hdemands : outcome source (rootDemands p) r = .ok (work, r))
    (hmeet : outcome source (meetAll p .empty work) r = .ok (.ok start, r)) :
    outcome source (search p limit) r =
      match outcome source (explore p limit start) r with
      | .ok (some solved, r') => .ok (solved.toSolution p r'.attempts, r')
      | .ok (none, r') => .error (.unsatisfiable r'.toFailure)
      | .error e => .error e := by
  rw [search, outcome_bind, hdemands]
  dsimp only
  rw [outcome_bind, hmeet]
  dsimp only
  rw [outcome_bind]
  cases outcome source (explore p limit start) r with
  | error e => rfl
  | ok result =>
      obtain ⟨solved?, r'⟩ := result
      cases solved? <;> rfl

theorem exists_decides_of_outcome_search {solution : Solution}
    (h : outcome source (search p limit) r = .ok (solution, r')) :
    ∃ work n start order s, IsSound source p .empty work ∧
      (∀ path, p.rootTree.Reaches p.ignored true p.rootSeeds path → p.rootTree.IsUsable path) ∧
      Meets source p n .empty work start [] ∧ order.length ≤ limit ∧
      Decides source p order start s ∧ solution = s.toSolution p r'.attempts := by
  rw [search] at h
  obtain ⟨work, r₁, hdemands, hrest⟩ := outcome_bind_eq_ok_iff.mp h
  obtain ⟨met, r₂, hmeet, hrest⟩ := outcome_bind_eq_ok_iff.mp hrest
  obtain ⟨hsound, husable⟩ := isSound_of_outcome_rootDemands hdemands
  cases met with
  | error c => cases hrest
  | ok start =>
      obtain ⟨solved?, r₃, hexplore, hend⟩ := outcome_bind_eq_ok_iff.mp hrest
      cases solved? with
      | none => cases hend
      | some solved =>
          cases hend
          obtain ⟨n, hmeets⟩ := meets_of_outcome_meetAll hmeet
          obtain ⟨order, hlength, hdecides⟩ := decides_of_outcome_explore hexplore
          exact ⟨work, n, start, order, solved, hsound, husable, hmeets, hlength, hdecides, rfl⟩

private theorem isSolvedAlong_of_outcome_search {solution : Solution}
    (h : outcome source (search p limit) r = .ok (solution, r')) :
    ∃ start order s, IsSolvedAlong source p limit start order s ∧
      solution = s.toSolution p r'.attempts := by
  obtain ⟨work, n, start, order, s, hsound, husable, hmeets, hlength, hdecides, hsolution⟩ :=
    exists_decides_of_outcome_search h
  exact ⟨start, order, s,
    ⟨hsound.meets hmeets, hmeets.selected_eq_empty, hdecides, hlength, husable⟩, hsolution⟩

theorem isSolvedAlong_of_run_solve {solution : Solution}
    (h : (solve p limit).run source = .ok solution) :
    ∃ start order s attempts, IsSolvedAlong source p limit start order s ∧
      solution = s.toSolution p attempts := by
  obtain ⟨r', hsearch⟩ := run_solve_eq_ok_iff.mp h
  obtain ⟨start, order, s, halong, hsolution⟩ := isSolvedAlong_of_outcome_search hsearch
  exact ⟨start, order, s, r'.attempts, halong, hsolution⟩

/-- A solution is read off a state that has the invariants and in which nothing is pending. -/
theorem isSolved_of_run_solve {solution : Solution}
    (h : (solve p limit).run source = .ok solution) :
    ∃ s attempts, IsSolved source p limit s ∧ solution = s.toSolution p attempts := by
  obtain ⟨start, order, s, attempts, halong, hsolution⟩ := isSolvedAlong_of_run_solve h
  exact ⟨s, attempts, halong.isSolved, hsolution⟩

/-! ### A chain of two projects -/

/-- A manifest that takes a project from a branch. -/
def takingBranch (target : ProjectRoot) (name : String) : Manifest :=
  { Manifest.empty with constraints := .ofList [(target, ⟨.branch name, none⟩)] }

/-- A source of two projects, of which `a.io` imports `b.io` and takes it from its branch `main`. -/
def chainSource : VersionSource
  | .versions ⟨"b.io"⟩ => .ok [.branch "next" none, .branch "main" none]
  | .versions _ => .ok [.branch "main" none]
  | .tree root _ =>
      .ok (MemorySource.singlePackageTree root (if root.path = "a.io" then ["b.io"] else []))
  | .manifest root _ =>
      .ok (if root.path = "a.io" then takingBranch ⟨"b.io"⟩ "main" else .empty)
  | .root path => .ok ⟨if path = "a.io" then "a.io" else "b.io"⟩

/-- A project that imports `a.io` and takes another one from a branch. -/
def chainParameters (target : ProjectRoot) (name : String) : Parameters :=
  .ofTree (MemorySource.singlePackageTree ⟨"root.io"⟩ ["a.io"])
    (.ofManifest "root.io" (takingBranch target name))

/-- The solution if the branch is that of `a.io`. -/
def chainSolution : Solution where
  projects := .ofList
    [(⟨"a.io"⟩, .ofPackages ⟨"a.io"⟩ (.branch "main" none) ["."]),
      (⟨"b.io"⟩, .ofPackages ⟨"b.io"⟩ (.branch "main" none) ["."])]
  imports := .ofList [(none, .ofList [⟨"a.io"⟩]), (some ⟨"a.io"⟩, .ofList [⟨"b.io"⟩])]
  inputsDigest := (chainParameters ⟨"a.io"⟩ "main").inputsDigest
  attempts := 2

end DepSolver.Search
