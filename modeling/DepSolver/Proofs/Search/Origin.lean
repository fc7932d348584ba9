import DepSolver.Proofs.Search.Closure
import DepSolver.Proofs.Search.Justification

/-!
What manifests contribute to the constraints on a project, whatever answers a search gets. A manifest
contributes once, and is told from others by its origin, the text of its project and version. So a
constraint is left out just where another importer has the same origin, which takes the mark between
project and version in the root of the one and in the version of the other.
-/

namespace DepSolver

/-- The root of a project ends within that of another one, and its version goes on from there to end
with the version of the other. -/
def Overlaps (root : ProjectRoot) (version : Version) (other : ProjectRoot)
    (otherVersion : Version) : Prop :=
  ∃ more : String, other.path = root.path ++ "@" ++ more ∧
    toString version = more ++ "@" ++ toString otherVersion

private theorem toList_origin (root : ProjectRoot) (version : Version) :
    (s!"{root.path}@{version}").toList = root.path.toList ++ '@' :: (toString version).toList := by
  rw [String.toList_append, String.toList_append, List.append_assoc]
  rfl

theorem eq_or_overlaps_of_origin_eq {root other : ProjectRoot} {version otherVersion : Version}
    (h : s!"{root.path}@{version}" = s!"{other.path}@{otherVersion}") :
    root = other ∨ Overlaps root version other otherVersion ∨
      Overlaps other otherVersion root version := by
  have hlists := congrArg String.toList h
  rw [toList_origin, toList_origin] at hlists
  have hoverlap : ∀ {q r : ProjectRoot} {v w : Version} {more : List Char},
      r.path.toList = q.path.toList ++ '@' :: more →
      (toString v).toList = more ++ '@' :: (toString w).toList → Overlaps q v r w := by
    intro q r v w more hpath hversion
    refine ⟨.ofList more, String.toList_inj.mp ?_, String.toList_inj.mp ?_⟩
    · simpa using hpath
    · simpa using hversion
  rcases List.append_eq_append_iff.mp hlists with ⟨l, hpath, hrest⟩ | ⟨l, hpath, hrest⟩
  · cases l with
    | nil => exact .inl (congrArg ProjectRoot.mk (String.toList_inj.mp (by simpa using hpath.symm)))
    | cons c more =>
        obtain ⟨rfl, hversion⟩ := List.cons.inj hrest
        exact .inr (.inl (hoverlap hpath hversion))
  · cases l with
    | nil => exact .inl (congrArg ProjectRoot.mk (String.toList_inj.mp (by simpa using hpath)))
    | cons c more =>
        obtain ⟨rfl, hversion⟩ := List.cons.inj hrest
        exact .inr (.inr (hoverlap hpath hversion))

theorem Overlaps.mem_at {root other : ProjectRoot} {version otherVersion : Version}
    (h : Overlaps root version other otherVersion) :
    '@' ∈ other.path.toList ∧ '@' ∈ (toString version).toList := by
  obtain ⟨more, hpath, hversion⟩ := h
  rw [hpath, hversion]
  simp

namespace Search

variable {replies : Replies} {source : VersionSource} {p : Parameters} {s s' : SearchState}
  {d : Demand} {imports : SortedSet String} {work more : List Demand} {limit : Nat}
  {solution : Solution}

/-- A constraint that the manifest of a selected importer places on a project was contributed to
it, unless another importer of the project contributed under the same origin. -/
def Collects (s : SearchState) : Prop :=
  ∀ importer x target decl, s.selected.get? importer = some x →
    s.imports.Relates (some importer) target → x.manifest.constraints.get? target = some decl →
    (∃ c ∈ s.contributed target, c.constraint = decl.constraint ∧ c.source = decl.source) ∨
      ∃ other y, s.selected.get? other = some y ∧ s.imports.Relates (some other) target ∧
        (∃ c, s.declared? other target = some c ∧ c ∈ s.contributed target) ∧
        (Overlaps importer x.version other y.version ∨ Overlaps other y.version importer x.version)

theorem IsAccounted.collects (h : IsAccounted s) : Collects s := by
  intro importer x target decl hx himports hdecl
  have hdeclared := SearchState.declared?_eq_some_iff.mpr ⟨x, decl, hx, hdecl, rfl⟩
  obtain ⟨c, hc, horigin⟩ := h.collected importer target _ himports hdeclared
  obtain ⟨other, himports', hdeclared'⟩ := h.attributed target c hc
  obtain ⟨y, decl', hy, hdecl', rfl⟩ := SearchState.declared?_eq_some_iff.mp hdeclared'
  rcases eq_or_overlaps_of_origin_eq horigin with rfl | hoverlaps
  · rw [hx] at hy
    cases hy
    rw [hdecl] at hdecl'
    cases hdecl'
    exact .inl ⟨_, hc, rfl, rfl⟩
  · exact .inr ⟨other, y, hy, himports', ⟨_, hdeclared', hc⟩, hoverlaps.symm⟩

/-! ### Every state of a search -/

/-- A version is selected of each importer, be it recorded or waiting with a demand. -/
structure HasSelectedImporters (s : SearchState) (work : List Demand) : Prop where
  recorded : ∀ importer target, s.imports.Relates (some importer) target →
    ∃ version, s.version? importer = some version
  waiting : ∀ d ∈ work, ∀ importer, d.importer = some importer →
    ∃ version, s.version? importer = some version

theorem HasSelectedImporters.record (h : HasSelectedImporters s (d :: work))
    {importer target : ProjectRoot} (himports : (s.record d).imports.Relates (some importer) target) :
    ∃ version, s.version? importer = some version := by
  rcases SearchState.relates_record_imports.mp himports with hold | ⟨himporter, -⟩
  · exact h.recorded importer target hold
  · exact h.waiting d List.mem_cons_self importer himporter.symm

theorem HasSelectedImporters.meet (h : HasSelectedImporters s (d :: work))
    (hmeet : s.meet p d = .ok (s', imports))
    (hmore : IsWorkUnder replies p (some d.target) imports.toList more) :
    HasSelectedImporters s' (work ++ more) := by
  have hversion := SearchState.version?_of_meet hmeet
  have himports : s'.imports = (s.record d).imports := by
    rcases SearchState.meet_eq_ok hmeet with ⟨-, rfl, -⟩ | ⟨x, -, -, reach, -, rfl, -⟩
    · rfl
    · rfl
  refine ⟨fun importer target himporter => ?_, fun d' hd' importer himporter => ?_⟩
  · rw [himports] at himporter
    rw [hversion]
    exact h.record himporter
  · rw [hversion]
    rcases List.mem_append.mp hd' with hd' | hd'
    · exact h.waiting d' (List.mem_cons_of_mem _ hd') importer himporter
    · obtain rfl : d.target = importer := by
        simpa [hmore.importer_eq d' hd'] using himporter
      rcases SearchState.meet_eq_ok hmeet with ⟨-, -, rfl⟩ | ⟨x, hextends⟩
      · rw [List.eq_nil_of_length_eq_zero (Nat.le_zero.mp hmore.length_le)] at hd'
        cases hd'
      · exact ⟨_, SearchState.version?_of_get? hextends.selected⟩

theorem HasSelectedImporters.select {root : ProjectRoot} {version : Version} {tree : PackageTree}
    {manifest : Manifest} (h : HasSelectedImporters s [])
    (hselect : s.select p root version tree manifest = .ok (s', imports))
    (hwork : IsWorkUnder replies p (some root) imports.toList work) :
    HasSelectedImporters s' work := by
  have hversion := SearchState.version?_of_select hselect
  obtain ⟨reach, -, rfl, -⟩ := SearchState.select_eq_ok hselect
  refine ⟨fun importer target himporter => ?_, fun d hd importer himporter => ?_⟩
  · obtain ⟨old, hold⟩ := h.recorded importer target himporter
    rw [hversion, Function.update_apply]
    split
    · exact ⟨version, rfl⟩
    · exact ⟨old, hold⟩
  · obtain rfl : root = importer := by simpa [hwork.importer_eq d hd] using himporter
    exact ⟨version, by rw [hversion, Function.update_self]⟩

theorem Occurs.hasSelectedImporters (h : Occurs replies p s work) :
    HasSelectedImporters s work := by
  induction h with
  | start _ hwork =>
      refine ⟨fun _ target h => absurd h (Table.not_relates_empty _ target), ?_⟩
      intro d hd importer himporter
      rw [hwork.importer_eq d hd] at himporter
      cases himporter
  | meet _ hmeet hmore ih => exact ih.meet hmeet hmore
  | select _ _ _ _ _ _ hselect hwork ih => exact ih.select hselect hwork

theorem Occurs.isAccounted (h : Occurs replies p s work) : IsAccounted s := by
  induction h with
  | start _ _ => exact .empty
  | meet _ hmeet _ ih => exact ih.meet hmeet
  | select hoccurs hpending _ _ _ _ hselect _ ih =>
      exact ih.select hoccurs.hasSelectedImporters.recorded hpending hselect

theorem Occurs.isSatisfied (h : Occurs replies p s work) : IsSatisfied p s := by
  induction h with
  | start _ _ => exact .empty p
  | meet _ hmeet _ ih => exact ih.meet hmeet
  | select _ _ _ hcandidate _ _ hselect _ ih =>
      exact ih.select (satisfiedBy_of_mem_candidates hcandidate) hselect

theorem exists_occurs_of_run_solve (h : (solve p limit).run source = .ok solution) :
    ∃ s attempts, Occurs (.ofSource source) p s [] ∧ solution = s.toSolution p attempts := by
  obtain ⟨t, hyields, hanswers⟩ := (solve p limit).exists_yields_run source
  rw [h] at hyields
  have hensures : (solve p limit).Ensures (.ofSource source) (IsResult (.ofSource source) p) :=
    ensures_solve
  obtain ⟨-, s, attempts, hoccurs, -, hsolution⟩ := hensures.of_yields hyields hanswers
  exact ⟨s, attempts, hoccurs, hsolution⟩

/-- In every state of a search, and in the one that records its next demand, the manifests of the
selected projects are those that were answered, and what they declare was contributed, apart from
the constraints that an importer of the same origin suppresses. -/
theorem collects_of_occurs (h : Occurs replies p s work) :
    s.IsAnswered replies ∧ Collects s ∧ ∀ d ∈ work.head?, Collects (s.record d) :=
  ⟨h.isAnswered, h.isAccounted.collects, fun d _ => (h.isAccounted.record d).collects⟩

/-- The constraint that `a.io` declares for `b.io` was contributed when both are selected. -/
theorem collects_chainSolution : ∃ s attempts,
    chainSolution = s.toSolution (chainParameters ⟨"a.io"⟩ "main") attempts ∧
    Occurs (.ofSource chainSource) (chainParameters ⟨"a.io"⟩ "main") s [] ∧ Collects s ∧
    ∃ c ∈ s.contributed ⟨"b.io"⟩, c.constraint = .branch "main" := by
  have hrun : (solve (chainParameters ⟨"a.io"⟩ "main") 2).run chainSource = .ok chainSolution := by
    decide +kernel
  obtain ⟨s, attempts, hoccurs, hsolution⟩ := exists_occurs_of_run_solve hrun
  obtain ⟨hanswered, hcollects, -⟩ := collects_of_occurs hoccurs
  refine ⟨s, attempts, hsolution, hoccurs, hcollects, ?_⟩
  have hversion : s.version? ⟨"a.io"⟩ = some (.branch "main" none) := by
    rw [← SearchState.version?_toSolution, ← hsolution]
    decide
  have himports : s.imports.Relates (some ⟨"a.io"⟩) ⟨"b.io"⟩ := by
    rw [← SearchState.mem_importsOf_toSolution, ← hsolution]
    decide
  obtain ⟨x, hx, hmain⟩ := SearchState.version?_eq_some_iff.mp hversion
  have hmanifest : x.manifest = takingBranch ⟨"b.io"⟩ "main" :=
    Except.ok.inj (hanswered.selected _ x hx).2
  rcases hcollects _ x ⟨"b.io"⟩ ⟨.branch "main", none⟩ hx himports (by rw [hmanifest]; rfl) with
    ⟨c, hc, hconstraint, -⟩ | ⟨other, y, -, -, -, hoverlaps | hoverlaps⟩
  · exact ⟨c, hc, hconstraint⟩
  · rw [hmain] at hoverlaps
    exact absurd hoverlaps.mem_at.2 (by decide)
  · exact absurd hoverlaps.mem_at.1 (by decide)

/-! ### Two projects of one origin -/

/-- A source of `a.io` and `a.io@b`, which both import `t.io` and take it from a branch. The version
of `a.io` makes its origin that of `a.io@b`. -/
def overlappingSource : VersionSource
  | .versions root => .ok [.branch (if root.path = "a.io" then "b@main" else "main") none]
  | .tree root _ =>
      .ok (MemorySource.singlePackageTree root (if root.path = "t.io" then [] else ["t.io"]))
  | .manifest root _ =>
      .ok (if root.path = "a.io" then takingBranch ⟨"t.io"⟩ "main"
        else if root.path = "a.io@b" then takingBranch ⟨"t.io"⟩ "dev" else .empty)
  | .root path => .ok ⟨path⟩

def overlappingParameters : Parameters :=
  .ofTree (MemorySource.singlePackageTree ⟨"root.io"⟩ ["a.io", "a.io@b"])
    (.ofManifest "root.io" .empty)

def overlappingSolution : Solution where
  projects := .ofList
    [(⟨"a.io"⟩, .ofPackages ⟨"a.io"⟩ (.branch "b@main" none) ["."]),
      (⟨"a.io@b"⟩, .ofPackages ⟨"a.io@b"⟩ (.branch "main" none) ["."]),
      (⟨"t.io"⟩, .ofPackages ⟨"t.io"⟩ (.branch "main" none) ["."])]
  imports := .ofList [(none, .ofList [⟨"a.io"⟩, ⟨"a.io@b"⟩]), (some ⟨"a.io"⟩, .ofList [⟨"t.io"⟩]),
    (some ⟨"a.io@b"⟩, .ofList [⟨"t.io"⟩])]
  inputsDigest := overlappingParameters.inputsDigest
  attempts := 3

private theorem run_solve_overlapping :
    (solve overlappingParameters 3).run overlappingSource = .ok overlappingSolution := by
  decide +kernel

/-- The origin of `a.io@b` is that of `a.io`, so what it declares for `t.io` is left out. -/
theorem not_contributed_of_occurs :
    ¬ ∀ (replies : Replies) (p : Parameters) (s : SearchState) (work : List Demand),
      Occurs replies p s work → ∀ importer x target decl, s.selected.get? importer = some x →
        s.imports.Relates (some importer) target →
        x.manifest.constraints.get? target = some decl →
        ∃ c ∈ s.contributed target, c.constraint = decl.constraint := by
  intro h
  obtain ⟨s, attempts, hoccurs, hsolution⟩ := exists_occurs_of_run_solve run_solve_overlapping
  have hversion : s.version? = overlappingSolution.version? := by
    rw [hsolution, SearchState.version?_toSolution]
  have himports : s.imports.Relates (some ⟨"a.io@b"⟩) ⟨"t.io"⟩ := by
    rw [← SearchState.mem_importsOf_toSolution, ← hsolution]
    decide
  obtain ⟨x, hx, -⟩ := SearchState.version?_eq_some_iff.mp
    (show s.version? ⟨"a.io@b"⟩ = some (.branch "main" none) by rw [hversion]; decide)
  obtain ⟨y, hy, hmain⟩ := SearchState.version?_eq_some_iff.mp
    (show s.version? ⟨"t.io"⟩ = some (.branch "main" none) by rw [hversion]; decide)
  have hmanifest : x.manifest = takingBranch ⟨"t.io"⟩ "dev" :=
    Except.ok.inj (hoccurs.isAnswered.selected _ x hx).2
  obtain ⟨c, hc, hdev⟩ := h _ _ _ _ hoccurs ⟨"a.io@b"⟩ x ⟨"t.io"⟩ ⟨.branch "dev", none⟩ hx himports
    (by rw [hmanifest]; rfl)
  have hadmits := SearchState.satisfiedBy_constraintOn.mp (hoccurs.isSatisfied ⟨"t.io"⟩ y hy)
  have hsatisfied : c.constraint.satisfiedBy y.version = true := hadmits.2 _ ⟨c, hc, rfl⟩
  rw [hdev, hmain] at hsatisfied
  exact absurd hsatisfied (by decide)

end Search

end DepSolver
