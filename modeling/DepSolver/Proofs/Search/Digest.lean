import DepSolver.Constraint.Parser
import DepSolver.Proofs.Search.Inputs
import DepSolver.Proofs.Search.Lockstep
import DepSolver.Proofs.Search.Run

/-!
What the digest of the inputs covers. Inputs with the same digest lead a search to the same choices
if they also agree in what no line of them records: whether ranges admit prereleases, which paths
are hidden, and whether the packages of the root tree can be used. They may differ in the packages
of the root tree and in the origins of constraints; where they differ in prereleases, the digest
does not tell that one of them has no solution.
-/

namespace DepSolver

/-- The versions that a solution chooses, and the packages that it uses of them. -/
def Solution.choices (s : Solution) : Table ProjectRoot (Version × List String) :=
  s.projects.map fun _ x => (x.version, x.packages)

namespace Parameters

/-- Every package that is followed from those of the root tree can be used. -/
def IsWalkable (p : Parameters) : Prop :=
  ∀ path, p.rootTree.Reaches p.ignored true p.rootSeeds path → p.rootTree.IsUsable path

/-- Inputs that agree in what a search reads of them and no line records. -/
structure AgreesOffRecord (p q : Parameters) : Prop where
  hides_eq : ∀ path, q.hides path = p.hides path
  isWalkable_iff : q.IsWalkable ↔ p.IsWalkable
  dependencies : AgreesInPrereleases p.constraints.dependencies q.constraints.dependencies
  overrides : AgreesInPrereleases p.constraints.overrides q.constraints.overrides

variable {p q : Parameters}

theorem isWalkable_iff : p.IsWalkable ↔
    ∃ reach, p.rootTree.reach (p.ownSeeds ++ (p.required.filter fun path =>
      !p.ignored.ignores path).toList.filter p.rootTree.contains) p.ignored true = .ok reach := by
  rw [PackageTree.exists_reach_eq_ok_iff, Search.setOf_mem_seeds, IsWalkable]

/-! ### The imports of the root tree -/

private theorem mem_ownSeeds (hp : p.IsPlain) {path : String} (husable : p.rootTree.IsUsable path)
    (hkept : p.ignored.ignores path = false) : path ∈ p.ownSeeds := by
  obtain ⟨x, hx⟩ := husable
  have hvalid : x ∈ p.rootTree.validPackages :=
    List.mem_filterMap.mpr ⟨.package x, Table.mem_values_iff.mpr ⟨path, hx⟩, rfl⟩
  refine List.mem_filter.mpr ⟨List.mem_map.mpr ⟨x, hvalid, hp.keyed path x hx⟩, ?_⟩
  rw [hkept]
  rfl

private theorem rootSeeds_eq (hp : p.IsPlain) (hwalkable : p.IsWalkable) :
    p.rootSeeds = {seed | seed ∈ p.ownSeeds} := by
  ext seed
  constructor
  · rintro (hown | ⟨hrequired, hkept, hcontained⟩)
    · exact hown
    · have hseed : seed ∈ p.rootSeeds := .inr ⟨hrequired, hkept, hcontained⟩
      exact mem_ownSeeds hp (hwalkable seed (.seed hseed hkept)) hkept
  · exact .inl

private theorem mem_externalImports (hp : p.IsPlain) (hwalkable : p.IsWalkable) {path : String} :
    path ∈ p.externalImports ↔ p.rootTree.LeadsOut p.ignored true p.rootSeeds path := by
  have hseeds := rootSeeds_eq hp hwalkable
  rw [IsWalkable, hseeds] at hwalkable
  obtain ⟨reach, hreach⟩ := PackageTree.exists_reach_eq_ok_iff.mpr hwalkable
  rw [externalImports, hreach, hseeds]
  exact (PackageTree.isReach_of_reach_eq_ok hreach).mem_external path

private theorem contains_eq_false_of_hides {path : String} (h : p.hides path = false) :
    p.rootTree.contains path = false := by
  simp only [hides, PackageTree.follows, Bool.or_eq_false_iff] at h
  exact h.1.1.1

theorem AgreesInRecord.rootImports_iff (h : p.AgreesInRecord q) (hoff : p.AgreesOffRecord q)
    (hp : p.IsPlain) (hq : q.IsPlain) (hwalkable : p.IsWalkable) {path : String}
    (hpath : p.hides path = false) : q.RootImports path ↔ p.RootImports path := by
  have hpath' : q.hides path = false := by rw [hoff.hides_eq, hpath]
  rw [RootImports, RootImports, ← mem_externalImports hp hwalkable,
    ← mem_externalImports hq (hoff.isWalkable_iff.mpr hwalkable), h.externalImports_eq,
    h.required_eq, h.ignored_eq, contains_eq_false_of_hides hpath,
    contains_eq_false_of_hides hpath']

end Parameters

namespace Search

variable {source : VersionSource} {p q : Parameters} {s t : SearchState}
  {records : SearchRecord → SearchRecord → Prop}

/-! ### The first demands -/

private theorem groupImports_go_filter (p : Parameters) (owner : Option ProjectRoot)
    (imports : List String) (grouped : Table ProjectRoot (SortedSet String)) :
    groupImports.go p owner grouped (imports.filter fun path => !p.hides path) =
      groupImports.go p owner grouped imports := by
  induction imports generalizing grouped with
  | nil => rfl
  | cons path rest ih =>
      cases hpath : p.hides path with
      | true =>
          rw [List.filter_cons_of_neg (by simp [hpath]), ih, groupImports.go, if_pos hpath]
      | false =>
          rw [List.filter_cons_of_pos (by simp [hpath]), groupImports.go, groupImports.go]
          simp only [ih]

private theorem demands_filter (p : Parameters) (importer : Option ProjectRoot)
    (imports : SortedSet String) :
    demands p importer (imports.filter fun path => !p.hides path) = demands p importer imports := by
  rw [demands, demands, groupImports, groupImports, ← groupImports_go_filter p importer
    imports.toList]
  rfl

theorem SteersAlike.goAlike_rootDemands (h : SteersAlike p q ∅ records) (hwalkable : p.IsWalkable)
    (hwalkable' : q.IsWalkable)
    (himports : ∀ path, p.hides path = false → (q.RootImports path ↔ p.RootImports path)) :
    GoAlike source source records
      (fun a b => b = a ∧ ∀ d ∈ a, IsVisible source p d.target) (rootDemands p)
      (rootDemands q) := by
  rcases rootDemands_eq p with ⟨imports, heq, hmem, -⟩ | ⟨-, -, -, path, hreaches, hbroken⟩
  · rcases rootDemands_eq q with ⟨imports', heq', hmem', -⟩ | ⟨-, -, -, path, hreaches, hbroken⟩
    · have hsame : (imports'.filter fun path => !q.hides path) =
          imports.filter fun path => !p.hides path := by
        apply SortedSet.ext
        intro path
        rw [SortedSet.mem_filter, SortedSet.mem_filter, h.hides_eq, hmem, hmem',
          Bool.not_eq_true']
        exact and_congr_left (himports path)
      rw [heq, heq', ← demands_filter p, ← demands_filter q, hsame]
      exact (AnswersAlike.refl source p ∅).goAlike_demands h none _
    · exact absurd (hwalkable' path hreaches) hbroken
  · exact absurd (hwalkable path hreaches) hbroken

/-! ### Steering by merged constraints -/

private theorem constraintOn_of_isMerged (hmerged : p.constraints.IsMerged) (s : SearchState)
    (root : ProjectRoot) :
    s.constraintOn p root =
      ((p.constraints.overrides.get? root).map (·.constraint)).getD
        (((s.contributed root).map (·.constraint)).foldl Constraint.inter
          (((p.constraints.dependencies.get? root).map (·.constraint)).getD .any)) := by
  rw [SearchState.constraintOn, SearchState.contributionsTo, ← SearchState.contributed]
  cases p.constraints.overrides.get? root with
  | some c => rfl
  | none =>
      dsimp only
      rw [Contribution.interAll, Constraint.interAll, List.map_append, List.foldl_append]
      cases hc : p.constraints.dependencies.get? root with
      | none => rfl
      | some c =>
          have hinter := hmerged.interAll_contributions hc
          rw [Contribution.interAll, Constraint.interAll] at hinter
          rw [Option.elim_some, hinter]
          rfl

private theorem steersAlike_of_agreesInRecord (h : p.AgreesInRecord q)
    (hhides : ∀ path, q.hides path = p.hides path) (hp : p.constraints.IsMerged)
    (hq : q.constraints.IsMerged) (hlock : p.lock = none) (hlock' : q.lock = none) :
    SteersAlike p q ∅ fun _ _ => True where
  hides_eq := hhides
  ignored_eq := h.ignored_eq
  lockedVersion?_eq root := by
    rw [Parameters.lockedVersion?, Parameters.lockedVersion?, hlock, hlock']
    simp only [Option.bind_none, ite_self]
  constraintOn_eq s t hagrees root := by
    rw [constraintOn_of_isMerged hp, constraintOn_of_isMerged hq, h.override_eq, h.dependency_eq,
      hagrees.contributed_eq root (Set.notMem_empty root)]
  conflict _ _ _ _ _ _ _ _ := trivial
  attempt _ _ _ := trivial

private theorem choices_toSolution_of_agreesOff (h : s.AgreesOff ∅ t) (attempts attempts' : Nat) :
    (t.toSolution q attempts').choices = (s.toSolution p attempts).choices := by
  rw [Solution.choices, Solution.choices, SearchState.toSolution, SearchState.toSolution]
  dsimp only
  rw [Table.map_map, Table.map_map]
  refine h.map_selected_eq _ _ fun root x y hxy => ?_
  rw [hxy.version_eq, hxy.packages_eq]

/-! ### Inputs with the same digest -/

private theorem exists_error_of_not_isWalkable (h : ¬ p.IsWalkable) (source : VersionSource)
    (limit : Nat) :
    ∃ e, (solve p limit).run source = .error e := by
  cases hrun : (solve p limit).run source with
  | error e => exact ⟨e, rfl⟩
  | ok solution =>
      obtain ⟨s, -, hsolved, -⟩ := isSolved_of_run_solve hrun
      exact absurd hsolved.usable h

/-- Searches on inputs with the same digest find the same choices or find none, if the inputs agree
in what no line records. -/
theorem resultsMatch_of_inputsDigest_eq (hp : p.IsPlain) (hq : q.IsPlain) (hlock : p.lock = none)
    (hlock' : q.lock = none) (hoff : p.AgreesOffRecord q)
    (hcollision : p.inputsDigest = q.inputsDigest → p.digestedText = q.digestedText)
    (hdigest : p.inputsDigest = q.inputsDigest) (source : VersionSource) (limit : Nat) :
    ResultsMatch (fun _ _ => True) (fun a b => b.choices = a.choices) ((solve p limit).run source)
      ((solve q limit).run source) := by
  have hlines := hp.inputLines_eq hq (hcollision hdigest)
  have hrecord := hp.agreesInRecord hq hoff.dependencies hoff.overrides hlines
  by_cases hwalkable : p.IsWalkable
  · have hsteers := steersAlike_of_agreesInRecord hrecord hoff.hides_eq hp.merged hq.merged hlock
      hlock'
    have hdemands : GoAlike source source _ _ (rootDemands p) (rootDemands q) :=
      hsteers.goAlike_rootDemands hwalkable (hoff.isWalkable_iff.mpr hwalkable)
        fun path hpath => hrecord.rootImports_iff hoff hp hq hwalkable hpath
    have hmatch := (AnswersAlike.refl source p ∅).resultsMatch_run_solve hsteers limit hdemands
      trivial
    generalize (solve p limit).run source = o at hmatch ⊢
    generalize (solve q limit).run source = o' at hmatch ⊢
    cases hmatch with
    | error => exact .error trivial
    | ok hsolutions =>
        obtain ⟨s, t, r, r', hagrees, -, rfl, rfl⟩ := hsolutions
        exact .ok (choices_toSolution_of_agreesOff hagrees r.attempts r'.attempts)
  · obtain ⟨e, he⟩ := exists_error_of_not_isWalkable hwalkable source limit
    obtain ⟨e', he'⟩ := exists_error_of_not_isWalkable (mt hoff.isWalkable_iff.mp hwalkable) source
      limit
    rw [he, he']
    exact .error trivial

/-! ### Root packages that import the same -/

/-- A project of one package that takes `a.io` from its branch `main`. -/
def takingMain (x : Package) (origin : String) : Parameters :=
  .ofTree ((PackageTree.ofRoot "root.io").insertPackage x)
    (.ofManifest origin (takingBranch ⟨"a.io"⟩ "main"))

variable {x y : Package} {origin : String}

theorem get?_takingMain (x : Package) (origin path : String) :
    (takingMain x origin).rootTree.get? path =
      if path = x.importPath then some (.package x) else none :=
  Table.get?_insert _ _ _ _

theorem eq_of_mem_takingMain {root : ProjectRoot} {c : MergedConstraint}
    (h : (root, c) ∈ (takingMain x origin).constraints.dependencies.entries) :
    root = ⟨"a.io"⟩ ∧ c = ⟨.branch "main", none, [⟨origin, .branch "main", none⟩]⟩ := by
  have hentries : (takingMain x origin).constraints.dependencies.entries =
      [(⟨"a.io"⟩, ⟨.branch "main", none, [⟨origin, .branch "main", none⟩]⟩)] := rfl
  rw [hentries, List.mem_singleton] at h
  exact Prod.mk.inj h

private theorem isPlain_takingMain
    (hlines : ∀ line ∈ (takingMain x origin).inputLines, '\n' ∉ line.toList) :
    (takingMain x origin).IsPlain where
  merged := .inr ⟨_, _, rfl⟩
  compiled := ⟨[], rfl⟩
  keyed path y hy := by
    rw [get?_takingMain] at hy
    split at hy
    · rename_i heq
      cases hy
      exact heq.symm
    · cases hy
  lines := hlines
  dependencies entry hentry := by
    obtain ⟨root, c⟩ := entry
    obtain ⟨rfl, rfl⟩ := eq_of_mem_takingMain hentry
    exact ⟨show ' ' ∉ "a.io".toList by decide, show ' ' ∉ "-".toList by decide,
      show ' ' ∉ "main".toList by decide, fun _ hr => nomatch hr⟩
  overrides _ hentry := nomatch hentry

private theorem agreesOffRecord_takingMain {other : String} (hx : (takingMain x origin).IsWalkable)
    (hy : (takingMain y other).IsWalkable) (hpath : x.importPath = y.importPath) :
    (takingMain x origin).AgreesOffRecord (takingMain y other) where
  hides_eq path := by
    have hcontains : (takingMain y other).rootTree.contains path =
        (takingMain x origin).rootTree.contains path := by
      rw [Bool.eq_iff_iff, PackageTree.contains, PackageTree.contains, Table.contains_iff,
        Table.contains_iff]
      change (∃ _, (takingMain y other).rootTree.get? path = _) ↔
        ∃ _, (takingMain x origin).rootTree.get? path = _
      simp only [get?_takingMain, hpath]
      split <;> simp
    rw [Parameters.hides, PackageTree.follows, hcontains]
    rfl
  isWalkable_iff := iff_of_true hy hx
  dependencies root c d hc hd := by
    obtain ⟨-, rfl⟩ := eq_of_mem_takingMain (Table.get?_eq_some_iff.mp hc)
    obtain ⟨-, rfl⟩ := eq_of_mem_takingMain (Table.get?_eq_some_iff.mp hd)
    rfl
  overrides root c d hc _ := nomatch hc

/-- Packages that import `a.io`, one of them in its tests only. -/
def importingPackage : Package := ⟨"root.io", "root", ["a.io"], []⟩

def testingPackage : Package := ⟨"root.io", "root", [], ["a.io"]⟩

/-- Two projects that differ in their packages and in the origins of their constraints have the same
digest and the same choices. -/
theorem choices_of_testingPackage :
    (takingMain importingPackage "root.io").inputsDigest =
      (takingMain testingPackage "work.io").inputsDigest ∧
    ResultsMatch (fun _ _ => True) (fun a b => b.choices = a.choices)
      ((solve (takingMain importingPackage "root.io") 2).run chainSource)
      ((solve (takingMain testingPackage "work.io") 2).run chainSource) ∧
    ((solve (takingMain importingPackage "root.io") 2).run chainSource).map Solution.choices =
      .ok (.ofList [(⟨"a.io"⟩, .branch "main" none, ["."]),
        (⟨"b.io"⟩, .branch "main" none, ["."])]) := by
  have htext : (takingMain importingPackage "root.io").digestedText =
      (takingMain testingPackage "work.io").digestedText := by
    decide +kernel
  have hdigest : (takingMain importingPackage "root.io").inputsDigest =
      (takingMain testingPackage "work.io").inputsDigest := by
    rw [Parameters.inputsDigest_eq, Parameters.inputsDigest_eq, htext]
  have himporting : (takingMain importingPackage "root.io").IsWalkable :=
    Parameters.isWalkable_iff.mpr ⟨⟨.ofList ["root.io"], .ofList ["a.io"]⟩, by decide +kernel⟩
  have htesting : (takingMain testingPackage "work.io").IsWalkable :=
    Parameters.isWalkable_iff.mpr ⟨⟨.ofList ["root.io"], .ofList ["a.io"]⟩, by decide +kernel⟩
  have hoff := agreesOffRecord_takingMain himporting htesting rfl
  exact ⟨hdigest, resultsMatch_of_inputsDigest_eq (isPlain_takingMain (by decide +kernel))
    (isPlain_takingMain (by decide +kernel)) rfl rfl hoff (fun _ => htext) hdigest chainSource 2,
    by decide +kernel⟩

/-! ### A prerelease that no line tells of -/

/-- A project that imports `a.io` and constrains it by a text. -/
def constrainedBy (text : String) : Parameters :=
  match Constraint.parse text with
  | .ok c => .ofTree ((PackageTree.ofRoot "root.io").insertPackage importingPackage)
      (.ofManifest "root.io" { Manifest.empty with constraints := .ofList [(⟨"a.io"⟩, ⟨c, none⟩)] })
  | .error _ => default

/-- A source whose projects have one version, which is a prerelease. -/
def betaSource : VersionSource
  | .versions _ => .ok [.semver ⟨2, 0, 0, ["beta"], []⟩ "2.0.0-beta" none]
  | .tree root _ => .ok (MemorySource.singlePackageTree root [])
  | .manifest _ _ => .ok .empty
  | .root path => .ok ⟨path⟩

/-- The lines of the inputs, and so the digest, do not determine the choices. A bound at a
prerelease opens a constraint to prereleases, and is not in its text where another bound lies
above it. -/
theorem not_resultsMatch_of_inputLines_eq :
    ¬ ∀ (p q : Parameters) (source : VersionSource) (limit : Nat), p.lock = none → q.lock = none →
      p.inputLines = q.inputLines → p.inputsDigest = q.inputsDigest →
      ResultsMatch (fun _ _ => True) (fun a b => b.choices = a.choices)
        ((solve p limit).run source) ((solve q limit).run source) := by
  intro h
  have hlines : (constrainedBy ">=1.0.0").inputLines =
      (constrainedBy ">=1.0.0-alpha, >=1.0.0").inputLines := by
    decide +kernel
  have hmatch := h (constrainedBy ">=1.0.0") (constrainedBy ">=1.0.0-alpha, >=1.0.0") betaSource 1
    (by decide +kernel) (by decide +kernel) hlines (congrArg Digest.ofLines hlines)
  have hstrict : ((solve (constrainedBy ">=1.0.0") 1).run betaSource).isOk = false := by
    decide +kernel
  have hopen : ((solve (constrainedBy ">=1.0.0-alpha, >=1.0.0") 1).run betaSource).isOk = true := by
    decide +kernel
  generalize (solve (constrainedBy ">=1.0.0") 1).run betaSource = o at hmatch hstrict
  generalize (solve (constrainedBy ">=1.0.0-alpha, >=1.0.0") 1).run betaSource = o' at hmatch hopen
  cases hmatch with
  | ok => cases hstrict
  | error => cases hopen

end Search

end DepSolver
