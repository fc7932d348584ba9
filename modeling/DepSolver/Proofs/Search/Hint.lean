import DepSolver.Proofs.Except
import DepSolver.Proofs.Search.Interchange
import DepSolver.Proofs.Search.Limit
import DepSolver.Proofs.Search.Relock

/-!
The lock as a hint. A lock changes the order in which versions are tried, and it may put a version
of its own in place of a listed one. As long as the two are interchangeable, and the source does not
fail, it does not decide whether there is a solution: a solution found with the lock is one without
it, up to versions that are interchangeable, and the other way round.
-/

namespace DepSolver

/-- The same inputs without a lock. -/
def Parameters.withoutLock (p : Parameters) : Parameters := { p with lock := none }

theorem Parameters.sameInputs_withoutLock (p : Parameters) : p.SameInputs p.withoutLock :=
  ⟨_, _, _, rfl⟩

/-- What a search on a source in memory comes to. -/
def MemorySource.solve (m : MemorySource) (p : Parameters) : Except SolveError Solution :=
  (Search.solve p (m.searchLimit p)).run m.answer

namespace Search

variable {source : VersionSource} {m : MemorySource} {p q : Parameters} {σ : Assignment}
  {s start : SearchState} {root : ProjectRoot} {v w version : Version}
  {order : List ProjectRoot} {limit : Nat}

/-! ### Locked versions -/

/-- A locked version that the source takes for the same release as a listed one is interchangeable
with it. -/
def LocksInterchangeably (source : VersionSource) (p : Parameters) : Prop :=
  ∀ root pinned listed, p.lockedVersion? root = some pinned →
    source.versionsOf root = .ok listed →
    ∀ v ∈ listed, pinned.sameRelease v = true → IsInterchangeable source p root pinned v

private theorem locksInterchangeably_withoutLock (source : VersionSource) (p : Parameters) :
    LocksInterchangeably source p.withoutLock := by
  intro root pinned listed hlocked
  rw [lockedVersion?_eq_none (.inl rfl)] at hlocked
  cases hlocked

/-! ### Solutions on a source in memory -/

theorem IsExplored.hasPlainImporters_of_keys {work : List Demand}
    (h : IsExplored m.answer p s work) (hplain : ∀ root ∈ m.projects.keys, '@' ∉ root.path.toList) :
    HasPlainImporters s := by
  intro importer target himports
  obtain ⟨version, hversion⟩ := h.version?_of_relates_imports himports
  obtain ⟨x, hx, -⟩ := SearchState.version?_eq_some_iff.mp hversion
  obtain ⟨listed, hversions⟩ := (h.selection importer x hx).versions
  obtain ⟨releases, hreleases, -⟩ := MemorySource.versionsOf_answer_eq_ok.mp hversions
  exact hplain importer
    (Table.mem_keys_iff.mpr ⟨releases, MemorySource.get?_projects_of_releases hreleases⟩)

theorem exists_solve_eq_ok (hoffered : IsOffered m.answer p σ)
    (husable : ∀ path, p.rootTree.Reaches p.ignored true p.rootSeeds path →
      p.rootTree.IsUsable path)
    (hsource : ∀ e, m.solve p ≠ .error (.source e)) : ∃ solution, m.solve p = .ok solution := by
  cases hrun : m.solve p with
  | ok solution => exact ⟨solution, rfl⟩
  | error e =>
      exfalso
      have hsearch := run_solve_eq_error_iff.mp hrun
      have hnot : ∀ e', e ≠ .source e' := by
        rintro e' rfl
        exact hsource e' hrun
      rcases @outcome_rootDemands m.answer p .empty with
        ⟨imports, work, hdemands, himports, hwork, -⟩ | ⟨-, -, -, path, hreaches, hbroken⟩ |
        ⟨path, e', -, -, -, herror⟩
      · have hfirst := IsSound.start himports hwork
        rcases hfirst.outcome_meetAll (isWithin_empty σ) hoffered.serves .empty with
          ⟨n, start, hmeets, hmet⟩ | ⟨e', -, herror⟩
        · have hstart := hfirst.meets hmeets
          rw [outcome_search_of_meetAll hdemands hmet] at hsearch
          split at hsearch
          · cases hsearch
          · rename_i r hnone
            exact hstart.outcome_explore_ne_none_of_isOffered ((isWithin_empty σ).meets hmeets)
              hoffered .empty r hnone
          · rename_i e' herror
            cases hsearch
            rcases breaksOff_of_outcome_explore herror with ⟨e', rfl⟩ | rfl
            · exact hnot e' rfl
            · exact hstart.outcome_explore_ne (fun t => IsSound.size_lt_searchLimit)
                (Nat.le_add_left _ _) .empty herror
        · rw [search, outcome_bind, hdemands] at hsearch
          dsimp only at hsearch
          rw [outcome_bind, herror] at hsearch
          cases hsearch
          exact hnot e' rfl
      · exact hbroken (husable path hreaches)
      · rw [search, outcome_bind, herror] at hsearch
        cases hsearch
        exact hnot e' rfl

/-! ### From one search to the other -/

theorem IsSolvedAlong.exists_isInterchangeable (h : IsSolvedAlong m.answer p limit start order s)
    (hlocks : LocksInterchangeably m.answer p) (hversion : s.version? root = some version) :
    ∃ w listed, IsInterchangeable m.answer p root version w ∧
      m.answer.versionsOf root = .ok listed ∧ w ∈ listed := by
  obtain ⟨t, listed, hversions, hcandidate⟩ := h.exists_candidate hversion
  rcases mem_or_eq_of_mem_candidates hcandidate with hlisted | hlocked
  · exact ⟨version, listed, .refl version, hversions, hlisted⟩
  · obtain ⟨x, hx, rfl⟩ := SearchState.version?_eq_some_iff.mp hversion
    obtain ⟨release, hrelease, -⟩ := MemorySource.treeAt_answer_eq_ok.mp
      (h.isSolved.sound.explored.selection root x hx).tree
    obtain ⟨releases, hreleases, hmem, hsame⟩ := MemorySource.mem_releases_of_release hrelease
    have hlisted : release.version ∈ releases.map (·.version) := List.mem_map_of_mem hmem
    have hanswer := MemorySource.versionsOf_answer_eq_ok.mpr ⟨releases, hreleases, rfl⟩
    rw [Version.sameRelease_comm] at hsame
    exact ⟨release.version, _, hlocks root _ _ hlocked hanswer _ hlisted hsame, hanswer, hlisted⟩

/-- A choice of which every version is listed. -/
def IsListed (source : VersionSource) (σ : Assignment) : Prop :=
  ∀ root v, σ root = some v → ∃ listed, source.versionsOf root = .ok listed ∧ v ∈ listed

theorem IsSolvedAlong.exists_serves (h : IsSolvedAlong m.answer p limit start order s)
    (hlocks : LocksInterchangeably m.answer p)
    (hplain : ∀ root ∈ m.projects.keys, '@' ∉ root.path.toList) :
    ∃ τ, Serves m.answer p τ ∧ IsListed m.answer τ := by
  have hinterchangeable : ∀ root v, ∃ w, s.version? root = some v →
      IsInterchangeable m.answer p root v w ∧
        ∃ listed, m.answer.versionsOf root = .ok listed ∧ w ∈ listed := by
    intro root v
    by_cases hv : s.version? root = some v
    · obtain ⟨w, listed, hsame, hversions, hlisted⟩ := h.exists_isInterchangeable hlocks hv
      exact ⟨w, fun _ => ⟨hsame, listed, hversions, hlisted⟩⟩
    · exact ⟨v, fun hv' => absurd hv' hv⟩
  choose f hf using hinterchangeable
  refine ⟨replaced s.version? f, ?_, ?_⟩
  · apply Serves.replaced
    · exact h.isSolved.serves (h.isSolved.sound.explored.hasPlainImporters_of_keys hplain)
    · exact fun root v hv => (hf root v hv).1
  · intro root w hw
    obtain ⟨v, hv, rfl⟩ := Option.map_eq_some_iff.mp hw
    exact (hf root v hv).2

/-- The locked version of a project in place of one that is the same release. -/
def relock (p : Parameters) (root : ProjectRoot) (v : Version) : Version :=
  ((p.lockedVersion? root).filter (·.sameRelease v)).getD v

theorem relock_eq (p : Parameters) (root : ProjectRoot) (v : Version) :
    (∃ pinned, p.lockedVersion? root = some pinned ∧ pinned.sameRelease v = true ∧
      relock p root v = pinned) ∨
    (∀ pinned, p.lockedVersion? root = some pinned → pinned.sameRelease v = false) ∧
      relock p root v = v := by
  rw [relock]
  cases hlocked : p.lockedVersion? root with
  | none => exact .inr ⟨by simp, rfl⟩
  | some pinned =>
      rw [Option.filter_some]
      cases hsame : pinned.sameRelease v with
      | true => exact .inl ⟨pinned, rfl, hsame, rfl⟩
      | false => exact .inr ⟨by simpa using hsame, rfl⟩

private theorem relock_mem_candidates {listed : List Version} (hlisted : v ∈ listed)
    (hsatisfied : (s.constraintOn p root).satisfiedBy (relock p root v) = true) :
    relock p root v ∈ s.candidates p root listed := by
  rcases relock_eq p root v with ⟨pinned, hlocked, -, heq⟩ | ⟨hother, heq⟩
  · rw [heq] at hsatisfied ⊢
    obtain ⟨rest, hcandidates⟩ := @candidates_of_lockedVersion? p s root pinned listed hlocked
      hsatisfied
    rw [hcandidates]
    exact List.mem_cons_self
  · rw [heq] at hsatisfied ⊢
    rw [SearchState.candidates]
    split
    · rename_i pinned hpinned
      have hnot := hother pinned (Option.filter_eq_some_iff.mp hpinned).1
      exact List.mem_cons_of_mem _ (List.mem_filter.mpr ⟨hlisted, by simp [hsatisfied, hnot]⟩)
    · exact List.mem_filter.mpr ⟨hlisted, hsatisfied⟩

private theorem isInterchangeable_relock (hlocks : LocksInterchangeably source p) {listed :
    List Version}
    (hversions : source.versionsOf root = .ok listed) (hlisted : v ∈ listed) :
    IsInterchangeable source p root v (relock p root v) := by
  rcases relock_eq p root v with ⟨pinned, hlocked, hsame, heq⟩ | ⟨-, heq⟩
  · rw [heq]
    exact (hlocks root pinned listed hlocked hversions v hlisted hsame).symm
  · rw [heq]
    exact .refl v

/-- With a lock, a choice of listed versions is offered with the locked ones in their places. -/
theorem Serves.isOffered_relock (h : Serves source p σ) (hlisted : IsListed source σ)
    (hlocks : LocksInterchangeably source p) :
    IsOffered source p (Search.replaced σ (relock p)) := by
  have hsame : ∀ root v, σ root = some v →
      IsInterchangeable source p root v (relock p root v) := by
    intro root v hv
    obtain ⟨listed, hversions, hmem⟩ := hlisted root v hv
    exact isInterchangeable_relock hlocks hversions hmem
  intro root path hpath
  rw [demandedOf_replaced hsame] at hpath
  obtain ⟨v, hserved⟩ := h root path hpath
  obtain ⟨listed, hversions, hmem⟩ := hlisted root v hserved.chosen
  exact ⟨relock p root v, listed, hserved.replaced hsame, hversions,
    fun t => relock_mem_candidates hmem⟩

theorem exists_solve_of_sameInputs (hinputs : p.SameInputs q)
    (hplain : ∀ root ∈ m.projects.keys, '@' ∉ root.path.toList)
    (hlocks : LocksInterchangeably m.answer p) (hlocks' : LocksInterchangeably m.answer q)
    (hsource : ∀ e, m.solve q ≠ .error (.source e)) {solution : Solution}
    (h : m.solve p = .ok solution) : ∃ solution, m.solve q = .ok solution := by
  obtain ⟨start, order, s, attempts, halong, -⟩ := isSolvedAlong_of_run_solve h
  obtain ⟨τ, hserves, hlisted⟩ := halong.exists_serves hlocks hplain
  refine exists_solve_eq_ok ((hserves.of_sameInputs hinputs).isOffered_relock hlisted hlocks') ?_
    hsource
  obtain ⟨lock, toChange, changeAll, rfl⟩ := hinputs
  exact halong.usable

/-- Whether there is a solution does not depend on the lock, if a locked version is interchangeable
with every listed one whose place it takes, and neither search runs into a failure of the source. -/
theorem exists_solve_withoutLock_iff (m : MemorySource) (p : Parameters)
    (hplain : ∀ root ∈ m.projects.keys, '@' ∉ root.path.toList)
    (hlocks : LocksInterchangeably m.answer p) (hwith : ∀ e, m.solve p ≠ .error (.source e))
    (hwithout : ∀ e, m.solve p.withoutLock ≠ .error (.source e)) :
    (∃ solution, m.solve p = .ok solution) ↔ ∃ solution, m.solve p.withoutLock = .ok solution := by
  have hinputs := p.sameInputs_withoutLock
  have hfree := locksInterchangeably_withoutLock m.answer p
  constructor
  · rintro ⟨solution, h⟩
    exact exists_solve_of_sameInputs hinputs hplain hlocks hfree hwithout h
  · rintro ⟨solution, h⟩
    exact exists_solve_of_sameInputs hinputs.symm hplain hfree hlocks hwith h

/-! ### Where the lock decides -/

/-- A release with one package. -/
def singlePackage (root : ProjectRoot) (version : Version) (imports : List String)
    (manifest : Manifest) : Release :=
  ⟨version, MemorySource.singlePackageTree root imports, manifest⟩

/-- A project that imports some paths, with a version of one project in its lock. -/
def lockedParameters (imports : List String) (root : ProjectRoot) (version : Version) :
    Parameters :=
  { Parameters.ofTree (MemorySource.singlePackageTree ⟨"root.io"⟩ imports)
      (.ofManifest "root.io" .empty) with
    lock := some (.ofProjects "" [.ofPackages root version ["."]]) }

/-- The release 1.0.0, with its revision or without. -/
def releaseOne (revision : Option Revision) : Version :=
  .semver (.release 1 0 0) "1.0.0" revision

/-- A source of which the newest release of `a.io` imports a project that cannot be fetched. -/
def offlineSource : MemorySource :=
  let new := singlePackage ⟨"a.io"⟩ (.semver (.release 2 0 0) "2.0.0" none) ["f.io"] .empty
  let old := singlePackage ⟨"a.io"⟩ (releaseOne none) [] .empty
  ((MemorySource.empty.addRelease ⟨"a.io"⟩ new).addRelease ⟨"a.io"⟩ old).failFetch ⟨"f.io"⟩
    "offline"

/-- A project that imports `a.io` and `b.io` and has `a.io` without its revision in the lock. -/
def unpairedParameters : Parameters :=
  lockedParameters ["a.io", "b.io"] ⟨"a.io"⟩ (releaseOne none)

/-- A source that knows the revision of `a.io`, of which `b.io` takes `a.io` at a constraint. -/
def pairedSource (c : Constraint) : MemorySource :=
  let a := singlePackage ⟨"a.io"⟩ (releaseOne (some ⟨"r1"⟩)) [] .empty
  let b := singlePackage ⟨"b.io"⟩ (releaseOne none) ["a.io"]
    { Manifest.empty with constraints := .ofList [(⟨"a.io"⟩, ⟨c, none⟩)] }
  (MemorySource.empty.addRelease ⟨"a.io"⟩ a).addRelease ⟨"b.io"⟩ b

/-- A source of two projects that make up one origin, and that take `t.io` from two branches. -/
def collidingSource : MemorySource :=
  let a := singlePackage ⟨"a.io"⟩ (.branch "b@c" none) ["t.io"] (takingBranch ⟨"t.io"⟩ "next")
  let b := singlePackage ⟨"a.io@b"⟩ (.branch "c" none) ["t.io"] (takingBranch ⟨"t.io"⟩ "main")
  let t := singlePackage ⟨"t.io"⟩ (.branch "main" none) [] .empty
  ((MemorySource.empty.addRelease ⟨"a.io"⟩ a).addRelease ⟨"a.io@b"⟩ b).addRelease ⟨"t.io"⟩ t

/-- The lock keeps a search away from a project that cannot be fetched; a locked release without its
revision stands in for the listed one that has it; and of two importers with one origin only the
first that is decided is heeded. -/
theorem not_exists_solve_withoutLock_iff :
    (¬ ((∃ solution, offlineSource.solve
          (lockedParameters ["a.io"] ⟨"a.io"⟩ (releaseOne none)) = .ok solution) ↔
        ∃ solution, offlineSource.solve
          (lockedParameters ["a.io"] ⟨"a.io"⟩ (releaseOne none)).withoutLock = .ok solution)) ∧
    (¬ ((∃ solution, (pairedSource (.revision ⟨"r1"⟩)).solve unpairedParameters = .ok solution) ↔
        ∃ solution, (pairedSource (.revision ⟨"r1"⟩)).solve unpairedParameters.withoutLock =
          .ok solution)) ∧
    ¬ ((∃ solution, collidingSource.solve
          (lockedParameters ["a.io", "a.io@b"] ⟨"a.io@b"⟩ (.branch "c" none)) = .ok solution) ↔
        ∃ solution, collidingSource.solve
          (lockedParameters ["a.io", "a.io@b"] ⟨"a.io@b"⟩ (.branch "c" none)).withoutLock =
            .ok solution) := by
  simp only [exists_eq_ok_iff_isOk]
  decide +kernel

private theorem locksInterchangeably_pairedSource :
    LocksInterchangeably (pairedSource (.exact (releaseOne none))).answer unpairedParameters := by
  intro root pinned listed hlocked hversions v hv _
  obtain ⟨project, hproject, rfl⟩ := Option.map_eq_some_iff.mp
    (show Option.map (·.version) (Lock.project? _ root) = some pinned from hlocked)
  obtain ⟨hmem, hroot⟩ := Lock.mem_of_project?_eq_some hproject
  obtain rfl := List.mem_singleton.mp hmem
  obtain rfl : ⟨"a.io"⟩ = root := hroot
  have hanswer : (pairedSource (.exact (releaseOne none))).answer.versionsOf ⟨"a.io"⟩ =
      .ok [releaseOne (some ⟨"r1"⟩)] := by
    decide +kernel
  rw [hanswer, Except.ok.injEq] at hversions
  subst hversions
  rw [List.mem_singleton.mp hv]
  refine ⟨by decide +kernel, by decide +kernel, ?_⟩
  intro c hc
  cases hc with
  | override hoverride => cases hoverride
  | dependency _ hdependency => cases hdependency
  | @declared importer version manifest _ _ hmanifest hdeclared =>
      obtain ⟨release, hrelease, rfl⟩ := MemorySource.manifestAt_answer_eq_ok.mp hmanifest
      obtain ⟨releases, hreleases, hmem, -⟩ := MemorySource.mem_releases_of_release hrelease
      have hall : ∀ releases ∈ (pairedSource (.exact (releaseOne none))).projects.values,
          ∀ release ∈ releases, ∀ c ∈ release.manifest.constraint? ⟨"a.io"⟩,
            c.satisfiedBy (releaseOne none) = c.satisfiedBy (releaseOne (some ⟨"r1"⟩)) := by
        decide +kernel
      exact hall releases (Table.mem_values_iff.mpr
        ⟨importer, MemorySource.get?_projects_of_releases hreleases⟩) release hmem c hdeclared

theorem exists_solve_withoutLock_pairedSource :
    (∃ solution, (pairedSource (.exact (releaseOne none))).solve unpairedParameters =
        .ok solution) ↔
      ∃ solution, (pairedSource (.exact (releaseOne none))).solve unpairedParameters.withoutLock =
        .ok solution := by
  have hok : ((pairedSource (.exact (releaseOne none))).solve unpairedParameters).isOk = true ∧
      ((pairedSource (.exact (releaseOne none))).solve
        unpairedParameters.withoutLock).isOk = true := by
    decide +kernel
  simp only [← exists_eq_ok_iff_isOk] at hok
  obtain ⟨⟨first, hfirst⟩, second, hsecond⟩ := hok
  refine exists_solve_withoutLock_iff _ _ (by decide) locksInterchangeably_pairedSource ?_ ?_
  · simp [hfirst]
  · simp [hsecond]

end Search

end DepSolver
