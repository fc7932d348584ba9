import DepSolver.Proofs.Search.Progress
import DepSolver.Proofs.Search.Soundness

/-!
Solving again with the lock of a solution. The search then follows the solution: it tries the
version of the solution first for each project, no demand is in conflict, and since the solution is
the closure of its own imports, the search ends in the same state, in whatever order it decides.
-/

namespace DepSolver

namespace Parameters

/-- The same inputs with a lock that counts for every project. -/
def withLock (p : Parameters) (lock : Lock) : Parameters :=
  { p with lock := some lock, toChange := .empty, changeAll := false }

variable {p : Parameters} {lock : Lock} {root : ProjectRoot}

theorem sameInputs_withLock (p : Parameters) (lock : Lock) : p.SameInputs (p.withLock lock) :=
  ⟨_, _, _, rfl⟩

private theorem lockedVersion?_withLock :
    (p.withLock lock).lockedVersion? root = lock.version? root := rfl

end Parameters

namespace Lock

theorem mem_of_project?_eq_some {lock : Lock} {root : ProjectRoot} {x : LockedProject}
    (h : lock.project? root = some x) : x ∈ lock.projects ∧ x.root = root := by
  obtain ⟨hmem, hcompare⟩ := Sorting.mem_of_search?_eq_some h
  exact ⟨hmem, Std.LawfulEqCmp.eq_of_compare hcompare⟩

theorem exists_project?_ofProjects {projects : List LockedProject} {x : LockedProject}
    (hx : x ∈ projects) (inputsDigest : String) :
    ∃ y, (ofProjects inputsDigest projects).project? x.root = some y := by
  have hsorted : (Sorting.sort (compareOn LockedProject.root) projects).Pairwise fun y z =>
      (compare y.root z.root).isLE := @Sorting.sort_pairwise _ (compareOn LockedProject.root) _ _
  exact Sorting.exists_search?_eq_some (Sorting.isInOrderOf_key hsorted x.root)
    (Sorting.mem_sort.mpr hx) Std.ReflCmp.compare_self

theorem project?_ofProjects {t : Table ProjectRoot LockedProject}
    (h : ∀ root x, t.get? root = some x → x.root = root) (inputsDigest : String)
    (root : ProjectRoot) : (Lock.ofProjects inputsDigest t.values).project? root = t.get? root := by
  have hmem : ∀ x, x ∈ (ofProjects inputsDigest t.values).projects ↔
      ∃ root, t.get? root = some x := by
    intro x
    rw [ofProjects, Sorting.mem_sort, Table.mem_values_iff]
  cases hfind : (ofProjects inputsDigest t.values).project? root with
  | some x =>
      obtain ⟨hx, hroot⟩ := mem_of_project?_eq_some hfind
      obtain ⟨root', hx⟩ := (hmem x).mp hx
      rw [← hroot, h root' x hx, hx]
  | none =>
      cases hx : t.get? root with
      | none => rfl
      | some x =>
          obtain ⟨y, hy⟩ :=
            exists_project?_ofProjects (Table.mem_values_iff.mpr ⟨root, hx⟩) inputsDigest
          rw [h root x hx, hfind] at hy
          cases hy

end Lock

theorem SearchState.version?_toLock {s : SearchState} {p : Parameters} {attempts : Nat}
    {root : ProjectRoot} : (s.toSolution p attempts).toLock.version? root = s.version? root := by
  rw [Lock.version?, Solution.toLock, Lock.project?_ofProjects, ← version?_toSolution (p := p)]
  · rfl
  · intro root x hx
    change (s.toSolution p attempts).project? root = some x at hx
    rw [project?_toSolution] at hx
    obtain ⟨selection, -, rfl⟩ := Option.map_eq_some_iff.mp hx
    rfl

namespace Search

variable {source : VersionSource} {p : Parameters} {lock : Lock} {σ : Assignment}
  {s solved : SearchState} {root : ProjectRoot} {limit limit' n : Nat}

/-! ### What a solution serves -/

theorem IsSolved.serves (h : IsSolved source p limit s) (hplain : HasPlainImporters s) :
    Serves source p s.version? := by
  intro root path hpath
  obtain ⟨x, hx⟩ := h.selected_iff.mpr ⟨path, hpath⟩
  have hselection := h.sound.explored.selection root x hx
  refine ⟨x.version, SearchState.version?_of_get? hx, ?_, ⟨_, hselection.manifest⟩, ?_⟩
  · obtain ⟨seeds, reach, hseeds, hreach, -⟩ := h.reach_needed hx
    rw [h.needed_eq root] at hseeds
    exact ⟨x.tree, seeds, reach, hselection.tree, hseeds, hreach⟩
  · refine (SearchState.satisfiedBy_constraintOn.mp (h.sound.satisfied root x hx)).anti ?_
    rintro c ⟨importer, path', version, manifest, hdemanded, hroot, hversion, hmanifest, hdeclares⟩
    have himports := h.relates_imports_iff.mpr ⟨path', hdemanded, hroot⟩
    exact h.sound.exists_contributed_of_plain hplain himports hversion hmanifest hdeclares

theorem IsSolved.not_isUnresolved (h : IsSolved source p limit s) (e : SourceError) :
    ¬ IsUnresolved source p s.version? e := by
  rintro ⟨importer, path, hdemanded, herror⟩
  obtain ⟨target, x, hroot, -⟩ := h.sound.explored.demanded_recorded h.done hdemanded
  rw [herror] at hroot
  cases hroot

/-! ### Following a choice of versions -/

private theorem outcome_decideNext_first {version : Version} {listed rest : List Version}
    {next : SearchState} {r r' : SearchRecord} (hversions : source.versionsOf root = .ok listed)
    (hcandidates : s.candidates p root listed = version :: rest)
    (htry : outcome source (trySelect p s root version) { r with attempts := r.attempts + 1 } =
      .ok (.ok next, { r with attempts := r.attempts + 1 }))
    (hgo : outcome source (explore p limit next) { r with attempts := r.attempts + 1 } =
      .ok (some solved, r')) :
    outcome source (decideNext p limit s root) r = .ok (some solved, r') := by
  have hmem : version ∈ s.candidates p root listed := by
    rw [hcandidates]
    exact List.mem_cons_self
  have hattempt : outcome source (attempt p (explore p limit) s root (version :: rest)) r =
      .ok (some solved, r') := by
    rw [attempt]
    simp only [outcome_bind, outcome_checkpoint, outcome_modify, htry, hgo, outcome_pure]
  rw [decideNext, outcome_bind, outcome_open?_of_mem hversions hmem]
  dsimp only
  rw [outcome_bind, hcandidates, hattempt]
  rfl

theorem candidates_of_lockedVersion? {version : Version} {listed : List Version}
    (hlocked : p.lockedVersion? root = some version)
    (hsatisfied : (s.constraintOn p root).satisfiedBy version = true) :
    ∃ rest, s.candidates p root listed = version :: rest := by
  rw [SearchState.candidates, hlocked, Option.filter_some, if_pos hsatisfied]
  exact ⟨_, rfl⟩

/-- What makes a search follow a choice of versions: it is the one to prefer, it serves all that it
demands, and the source answers every question about it. -/
structure IsGuide (source : VersionSource) (p : Parameters) (σ : Assignment) : Prop where
  locked : ∀ root, p.lockedVersion? root = σ root
  serves : Serves source p σ
  resolved : ∀ e, ¬ IsUnresolved source p σ e
  versions : ∀ root version, σ root = some version →
    ∃ listed, source.versionsOf root = .ok listed

theorem IsGuide.exists_versions (hguide : IsGuide source p σ)
    (h : IsSound source p s []) (hwithin : IsWithin s σ) (hpending : root ∈ s.pending) :
    ∃ version listed, IsServed source p σ root version ∧ source.versionsOf root = .ok listed := by
  obtain ⟨path, hdemanded⟩ := h.exists_demanded hwithin hpending
  obtain ⟨version, hserved⟩ := hguide.serves root path hdemanded
  obtain ⟨listed, hversions⟩ := hguide.versions root version hserved.chosen
  exact ⟨version, listed, hserved, hversions⟩

theorem IsGuide.exists_selects (hguide : IsGuide source p σ) (h : IsSound source p s [])
    (hwithin : IsWithin s σ) (hpending : root ∈ s.pending) {version : Version}
    (hserved : IsServed source p σ root version) (r : SearchRecord) :
    ∃ next, Selects source p s root version next ∧
      outcome source (trySelect p s root version) r = .ok (.ok next, r) := by
  obtain ⟨listed, hversions⟩ := hguide.versions root version hserved.chosen
  rcases h.outcome_trySelect hwithin hguide.serves hpending hversions hserved r with
    hselects | ⟨e, hunresolved, -⟩
  · exact hselects
  · exact absurd hunresolved (hguide.resolved e)

/-- A search that follows a choice of versions decides its way to the end, with one attempt for each
decision, if the limit leaves room for the versions that are not selected yet. -/
theorem IsGuide.outcome_explore (hguide : IsGuide source p σ) {bound : Nat}
    (hbound : ∀ t, IsSound source p t [] → IsWithin t σ → t.pending ≠ [] →
      t.selected.size < bound)
    (h : IsSound source p s []) (hwithin : IsWithin s σ) (hlimit : bound ≤ s.selected.size + limit)
    (r : SearchRecord) :
    ∃ order solved r', Decides source p order s solved ∧ IsWithin solved σ ∧
      outcome source (explore p limit s) r = .ok (some solved, r') ∧
      r'.attempts = r.attempts + order.length := by
  induction limit using Nat.strongRecOn generalizing s r with
  | ind limit ih =>
      have hspec := Search.outcome_explore source p limit s r
      generalize outcome source (explore p limit s) r = o at hspec
      cases hspec with
      | finished hdone => exact ⟨[], s, r, .done hdone, hwithin, rfl, rfl⟩
      | failed hpending herror =>
          obtain ⟨version, listed, -, hversions⟩ := hguide.exists_versions h hwithin hpending
          rw [herror] at hversions
          cases hversions
      | limited hpending =>
          have hlt := hbound s h hwithin (List.ne_nil_of_mem hpending)
          omega
      | @decided limit root hnext =>
          obtain ⟨version, listed, hserved, hversions⟩ :=
            hguide.exists_versions h hwithin hnext.pending
          have hsatisfied := h.satisfiedBy hwithin hserved
          obtain ⟨rest, hcandidates⟩ := @candidates_of_lockedVersion? p s root version listed
            ((hguide.locked root).trans hserved.chosen) hsatisfied
          obtain ⟨next, hselects, htry⟩ := hguide.exists_selects h hwithin hnext.pending hserved
            { r with attempts := r.attempts + 1 }
          have hsize := hselects.size_eq hnext.pending
          obtain ⟨order, solved, r', hdecides, hsolvedWithin, hgo, hattempts⟩ :=
            ih limit (Nat.lt_succ_self limit)
              (h.selects hnext.pending hversions hsatisfied hselects)
              (hwithin.selects hserved.chosen hselects) (by omega)
              { r with attempts := r.attempts + 1 }
          refine ⟨root :: order, solved, r', ?_, hsolvedWithin,
            outcome_decideNext_first hversions hcandidates htry hgo, ?_⟩
          · exact .step hnext hversions (hcandidates.trans (List.nil_append _).symm) (by simp)
              hselects hdecides
          · rw [hattempts, List.length_cons]
            dsimp only
            omega

/-! ### Equal solutions -/

theorem IsSolved.demanded_of_isWithin (h : IsSolved source p limit s) (hwithin : IsWithin s σ)
    {importer : Option ProjectRoot} {path : String}
    (hdemanded : Demanded source p σ importer path) :
    Demanded source p s.version? importer path := by
  induction hdemanded with
  | own himport hlook => exact .own himport hlook
  | imported _ hroot hversion htree himport hlook ih =>
      obtain ⟨target, x, htarget, -, -, hx⟩ := h.sound.explored.demanded_recorded h.done ih
      rw [hroot, Except.ok.injEq] at htarget
      subst htarget
      have hselected := SearchState.version?_of_get? hx
      rw [hwithin _ _ hselected, Option.some.injEq] at hversion
      rw [hversion] at hselected
      exact .imported ih hroot hselected htree himport hlook

theorem IsExploredSelection.eq_of_version_eq {t : SearchState} {work work' : List Demand}
    {x y : Selection} (hx : IsExploredSelection source p s work root x)
    (hy : IsExploredSelection source p t work' root y) (hversion : y.version = x.version)
    (hneeded : t.needed root = s.needed root) : y = x := by
  have htree : y.tree = x.tree := by
    have hsame := hy.tree
    rw [hversion, hx.tree, Except.ok.injEq] at hsame
    exact hsame.symm
  have hmanifest : y.manifest = x.manifest := by
    have hsame := hy.manifest
    rw [hversion, hx.manifest, Except.ok.injEq] at hsame
    exact hsame.symm
  have hpackages : y.packages = x.packages := by
    apply SortedSet.ext
    intro path
    rw [hy.packages, hx.packages, htree, hneeded]
  cases x
  cases y
  simp_all

theorem IsSolved.eq_of_isWithin {t : SearchState} (h : IsSolved source p limit s)
    (ht : IsSolved source p limit' t) (hwithin : IsWithin t s.version?) :
    t.selected = s.selected ∧ t.imports = s.imports := by
  have hdemanded : ∀ importer path, Demanded source p t.version? importer path ↔
      Demanded source p s.version? importer path := fun importer path =>
    ⟨fun hdemanded => hdemanded.mono hwithin, fun hdemanded =>
      ht.demanded_of_isWithin hwithin hdemanded⟩
  have hneeded : ∀ root, t.needed root = s.needed root := by
    intro root
    ext path
    rw [h.needed_eq root, ht.needed_eq root]
    simp only [DemandedOf, Set.mem_ofPred_eq, hdemanded]
  constructor
  · apply Table.ext
    intro root
    cases hy : t.selected.get? root with
    | some y =>
        have hversion := hwithin root y.version (SearchState.version?_of_get? hy)
        obtain ⟨x, hx, hsame⟩ := SearchState.version?_eq_some_iff.mp hversion
        rw [hx, (h.sound.explored.selection root x hx).eq_of_version_eq
          (ht.sound.explored.selection root y hy) hsame.symm (hneeded root)]
    | none =>
        cases hx : s.selected.get? root with
        | none => rfl
        | some x =>
            have hof := h.selected_iff.mp ⟨x, hx⟩
            rw [← h.needed_eq root, ← hneeded root, ht.needed_eq root, ← ht.selected_iff, hy] at hof
            obtain ⟨y, hy⟩ := hof
            cases hy
  · apply Table.eq_of_relates_iff ht.sound.explored.importsProper h.sound.explored.importsProper
    intro importer target
    rw [h.relates_imports_iff, ht.relates_imports_iff]
    simp only [hdemanded]

theorem IsSolved.of_withLock (h : IsSolved source (p.withLock lock) limit s) :
    IsSolved source p limit s where
  sound := by
    obtain ⟨hexplored, haccounted, hsatisfied⟩ := h.sound
    refine ⟨?explored, haccounted, hsatisfied⟩
    constructor
    case selection =>
      intro root x hx
      obtain ⟨hversions, htree, hmanifest, hrequired, hpackages, husable, hmet⟩ :=
        hexplored.selection root x hx
      exact ⟨hversions, htree, hmanifest, hrequired, hpackages, husable, hmet⟩
    case due =>
      intro d hd
      cases hd
    case required =>
      intro root
      rw [← (p.sameInputs_withLock lock).demandedOf_eq]
      exact hexplored.required root
    case imports =>
      intro importer target himports
      simp only [← (p.sameInputs_withLock lock).demanded_iff]
      exact hexplored.imports importer target himports
    case requiredProper => exact hexplored.requiredProper
    case importsProper => exact hexplored.importsProper
    case rootMet => exact hexplored.rootMet
  done := h.done
  size_le := h.size_le
  usable := h.usable

theorem IsSolved.size_lt_of_pending (h : IsSolved source p limit s) {t : SearchState}
    (ht : IsSound source (p.withLock lock) t []) (hwithin : IsWithin t s.version?)
    (hpending : t.pending ≠ []) : t.selected.size < s.selected.size := by
  obtain ⟨root, hroot⟩ := List.exists_mem_of_ne_nil _ hpending
  have hdemanded := ht.exists_demanded hwithin hroot
  rw [(p.sameInputs_withLock lock).demandedOf_eq, ← h.selected_iff] at hdemanded
  apply Table.size_lt_of_keys_subset _ (Table.mem_keys_iff.mpr hdemanded)
  · rw [Table.mem_keys_iff, (SearchState.mem_pending_iff.mp hroot).2]
    simp
  · intro root' hmem
    obtain ⟨x, hx⟩ := Table.mem_keys_iff.mp hmem
    have hversion := hwithin root' x.version (SearchState.version?_of_get? hx)
    obtain ⟨y, hy, -⟩ := SearchState.version?_eq_some_iff.mp hversion
    exact Table.mem_keys_iff.mpr ⟨y, hy⟩

theorem IsSolved.isGuide (h : IsSolved source p limit s) (hplain : source.HasPlainRoots)
    (attempts : Nat) :
    IsGuide source (p.withLock (s.toSolution p attempts).toLock) s.version? where
  locked _ := Parameters.lockedVersion?_withLock.trans SearchState.version?_toLock
  serves := (h.serves (h.sound.explored.hasPlainImporters hplain)).of_sameInputs
    (p.sameInputs_withLock _)
  resolved e := by
    rintro ⟨importer, path, hdemanded, herror⟩
    exact h.not_isUnresolved e
      ⟨importer, path, (p.sameInputs_withLock _).demanded_iff.mp hdemanded, herror⟩
  versions root version hversion := by
    obtain ⟨x, hx, -⟩ := SearchState.version?_eq_some_iff.mp hversion
    exact (h.sound.explored.selection root x hx).versions

theorem IsSolved.exists_run_solve_withLock (hsolved : IsSolved source p limit s)
    (hplain : source.HasPlainRoots) (attempts : Nat) :
    ∃ again, (solve (p.withLock (s.toSolution p attempts).toLock) limit).run source = .ok again ∧
      again.projects = (s.toSolution p attempts).projects ∧ again.imports = s.imports ∧
      again.inputsDigest = p.inputsDigest ∧
      again.attempts = (s.toSolution p attempts).projects.size := by
  have hguide := hsolved.isGuide hplain attempts
  generalize (s.toSolution p attempts).toLock = lock at hguide ⊢
  rcases @outcome_rootDemands source (p.withLock lock) .empty with
    ⟨imports, work, hdemands, himports, hwork, husable⟩ | ⟨-, -, -, path, hreaches, hbroken⟩ |
    ⟨path, e, himport, hlook, hroot, -⟩
  · have hfirst := IsSound.start himports hwork
    rcases hfirst.outcome_meetAll (isWithin_empty s.version?) hguide.serves .empty with
      ⟨m, start, hmeets, hmet⟩ | ⟨e, hunresolved, -⟩
    · have hstart := hfirst.meets hmeets
      have hlimit : s.selected.size ≤ start.selected.size + limit :=
        hsolved.size_le.trans (Nat.le_add_left _ _)
      obtain ⟨order, solved, r, hdecides, hwithin, hexplore, hattempts⟩ :=
        hguide.outcome_explore (fun t => hsolved.size_lt_of_pending) hstart
          ((isWithin_empty s.version?).meets hmeets) hlimit .empty
      have hagain : IsSolved source (p.withLock lock) solved.selected.size solved :=
        ⟨hstart.decides hdecides, hdecides.pending_eq_nil, Nat.le_refl _, husable⟩
      obtain ⟨hselected, himportsEq⟩ := hsolved.eq_of_isWithin hagain.of_withLock hwithin
      have hsearch := @outcome_search_of_meetAll source (p.withLock lock) work .empty limit start
        hdemands hmet
      rw [hexplore] at hsearch
      refine ⟨_, run_solve_eq_ok_iff.mpr ⟨r, hsearch⟩, ?_, ?_, rfl, ?_⟩
      · rw [SearchState.toSolution, hselected]
        rfl
      · exact himportsEq
      · have hempty : SearchState.empty.selected.size = 0 := rfl
        have hsize := hdecides.size_eq
        rw [hmeets.size_eq, hempty, hselected] at hsize
        have hprojects : (s.toSolution p attempts).projects.size = s.selected.size :=
          Table.size_map _ _
        exact hattempts.trans (hsize.symm.trans hprojects.symm)
    · exact absurd hunresolved (hguide.resolved e)
  · exact absurd (hsolved.usable path hreaches) hbroken
  · exact absurd ⟨none, path, .own himport hlook, hroot⟩ (hguide.resolved e)

/-- Solving again with the lock of a solution finds the same solution, and no version is tried that
is not in it. -/
theorem run_solve_withLock_toLock (hplain : source.HasPlainRoots) {solution : Solution}
    (h : (solve p limit).run source = .ok solution) :
    ∃ again, (solve (p.withLock solution.toLock) limit).run source = .ok again ∧
      again.projects = solution.projects ∧ again.imports = solution.imports ∧
      again.inputsDigest = solution.inputsDigest ∧ again.attempts = solution.projects.size := by
  obtain ⟨s, attempts, hsolved, rfl⟩ := isSolved_of_run_solve h
  exact hsolved.exists_run_solve_withLock hplain attempts

theorem run_solve_withLock_chainSolution :
    ∃ again, (solve ((chainParameters ⟨"a.io"⟩ "main").withLock chainSolution.toLock) 2).run
        chainSource = .ok again ∧
      again.projects = chainSolution.projects ∧ again.imports = chainSolution.imports ∧
      again.inputsDigest = chainSolution.inputsDigest ∧
      again.attempts = chainSolution.projects.size :=
  run_solve_withLock_toLock chainSource_hasPlainRoots
    (show (solve (chainParameters ⟨"a.io"⟩ "main") 2).run chainSource = .ok chainSolution by
      decide +kernel)

end Search

end DepSolver
