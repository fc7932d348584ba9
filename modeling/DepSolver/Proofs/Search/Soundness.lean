import DepSolver.Proofs.Search.Origin

/-!
The versions of a solution satisfy every constraint that applies to them. A constraint is recorded
once for each origin, so it takes names of projects without the mark that ends them in an origin to
tell the importers apart.
-/

namespace DepSolver

/-- No project of an import path has the mark in its name that stands before a version. -/
def VersionSource.HasPlainRoots (source : VersionSource) : Prop :=
  ∀ path root, source.rootOf path = .ok root → '@' ∉ root.path.toList

namespace Search

variable {source : VersionSource} {p : Parameters} {s : SearchState} {limit : Nat}

private theorem eq_of_origin_eq {root other : ProjectRoot} {version otherVersion : Version}
    (hplain : '@' ∉ root.path.toList) (hother : '@' ∉ other.path.toList)
    (h : s!"{root.path}@{version}" = s!"{other.path}@{otherVersion}") : root = other := by
  rcases eq_or_overlaps_of_origin_eq h with heq | hoverlaps | hoverlaps
  · exact heq
  · exact absurd hoverlaps.mem_at.1 hother
  · exact absurd hoverlaps.mem_at.1 hplain

/-- No recorded importer has the mark in its name. -/
def HasPlainImporters (s : SearchState) : Prop :=
  ∀ importer target, s.imports.Relates (some importer) target → '@' ∉ importer.path.toList

theorem IsExplored.hasPlainImporters {work : List Demand} (h : IsExplored source p s work)
    (hplain : source.HasPlainRoots) : HasPlainImporters s := by
  intro importer target himports
  obtain ⟨path, hdemanded, -⟩ := h.imports (some importer) target himports
  cases hdemanded with
  | imported _ hroot _ _ _ _ => exact hplain _ _ hroot

theorem IsAccounted.mem_contributed (h : IsAccounted s) (hplain : HasPlainImporters s)
    {importer target : ProjectRoot} {c : Contribution}
    (himports : s.imports.Relates (some importer) target)
    (hdeclared : s.declared? importer target = some c) : c ∈ s.contributed target := by
  -- Something of the same origin was contributed, and the origin tells from which importer.
  obtain ⟨c', hc', horigin⟩ := h.collected importer target c himports hdeclared
  obtain ⟨importer', himports', hdeclared'⟩ := h.attributed target c' hc'
  obtain ⟨x, decl, -, -, rfl⟩ := SearchState.declared?_eq_some_iff.mp hdeclared
  obtain ⟨x', decl', -, -, rfl⟩ := SearchState.declared?_eq_some_iff.mp hdeclared'
  obtain rfl : importer' = importer :=
    eq_of_origin_eq (hplain importer' target himports') (hplain importer target himports) horigin
  rw [hdeclared, Option.some.injEq] at hdeclared'
  rwa [hdeclared']

theorem IsSound.exists_contributed_of_plain {work : List Demand} (h : IsSound source p s work)
    (hplain : HasPlainImporters s) {importer target : ProjectRoot} {version : Version}
    {manifest : Manifest} {c : Constraint} (himports : s.imports.Relates (some importer) target)
    (hversion : s.version? importer = some version)
    (hmanifest : source.manifestAt importer version = .ok manifest)
    (hdeclares : manifest.constraint? target = some c) :
    ∃ x ∈ s.contributed target, x.constraint = c := by
  obtain ⟨y, hy, rfl⟩ := SearchState.version?_eq_some_iff.mp hversion
  rw [(h.explored.selection importer y hy).manifest, Except.ok.injEq] at hmanifest
  subst hmanifest
  obtain ⟨decl, hdecl, rfl⟩ := Option.map_eq_some_iff.mp hdeclares
  have hdeclared := SearchState.declared?_eq_some_iff.mpr ⟨y, decl, hy, hdecl, rfl⟩
  exact ⟨_, h.accounted.mem_contributed hplain himports hdeclared, rfl⟩

theorem IsSound.exists_contributed {work : List Demand} (h : IsSound source p s work)
    (hplain : source.HasPlainRoots) {importer target : ProjectRoot} {version : Version}
    {manifest : Manifest} {c : Constraint} (himports : s.imports.Relates (some importer) target)
    (hversion : s.version? importer = some version)
    (hmanifest : source.manifestAt importer version = .ok manifest)
    (hdeclares : manifest.constraint? target = some c) :
    ∃ x ∈ s.contributed target, x.constraint = c :=
  h.exists_contributed_of_plain (h.explored.hasPlainImporters hplain) himports hversion hmanifest
    hdeclares

/-- A version satisfies the constraints on its project: the merged override alone if there is one,
else the merged constraint and what the importers declare. -/
theorem satisfiedBy_of_run_solve (hmerged : p.constraints.IsMerged) (hplain : source.HasPlainRoots)
    {solution : Solution} (h : (solve p limit).run source = .ok solution) {root : ProjectRoot}
    {version : Version} (hversion : solution.version? root = some version) :
    (∀ c, p.constraints.overrides.get? root = some c → c.constraint.satisfiedBy version = true) ∧
    (p.constraints.overrides.get? root = none →
      (∀ c, p.constraints.dependencies.get? root = some c →
        c.constraint.satisfiedBy version = true) ∧
      ∀ importer importerVersion manifest c, solution.version? importer = some importerVersion →
        root ∈ solution.importsOf (some importer) →
        source.manifestAt importer importerVersion = .ok manifest →
        manifest.constraint? root = some c → c.satisfiedBy version = true) := by
  obtain ⟨s, attempts, hsolved, rfl⟩ := isSolved_of_run_solve h
  rw [SearchState.version?_toSolution] at hversion
  obtain ⟨x, hx, rfl⟩ := SearchState.version?_eq_some_iff.mp hversion
  have hadmits := SearchState.satisfiedBy_constraintOn.mp (hsolved.sound.satisfied root x hx)
  rw [Parameters.Admits] at hadmits
  cases hoverride : p.constraints.overrides.get? root with
  | some c =>
      rw [hoverride] at hadmits
      simpa using hadmits
  | none =>
      rw [hoverride] at hadmits
      obtain ⟨hstatic, hmore⟩ := hadmits
      refine ⟨by simp, fun _ => ⟨?_, ?_⟩⟩
      · intro c hc
        rw [← hmerged.interAll_contributions hc]
        exact hstatic c hc
      · intro importer importerVersion manifest c himporter himports hmanifest hdeclares
        rw [SearchState.version?_toSolution] at himporter
        rw [SearchState.mem_importsOf_toSolution] at himports
        exact hmore c
          (hsolved.sound.exists_contributed hplain himports himporter hmanifest hdeclares)

theorem chainSource_hasPlainRoots : chainSource.HasPlainRoots := by
  intro path root h
  change Except.ok (ProjectRoot.mk (if path = "a.io" then "a.io" else "b.io")) = .ok root at h
  cases h
  split <;> decide

/-- The manifest of `a.io` is heeded for `b.io`, of which a newer branch is listed first. -/
theorem satisfiedBy_chainSolution :
    (∀ c, (chainParameters ⟨"a.io"⟩ "main").constraints.overrides.get? ⟨"b.io"⟩ = some c →
      c.constraint.satisfiedBy (.branch "main" none) = true) ∧
    ((chainParameters ⟨"a.io"⟩ "main").constraints.overrides.get? ⟨"b.io"⟩ = none →
      (∀ c, (chainParameters ⟨"a.io"⟩ "main").constraints.dependencies.get? ⟨"b.io"⟩ = some c →
        c.constraint.satisfiedBy (.branch "main" none) = true) ∧
      ∀ importer importerVersion manifest c,
        chainSolution.version? importer = some importerVersion →
        ⟨"b.io"⟩ ∈ chainSolution.importsOf (some importer) →
        chainSource.manifestAt importer importerVersion = .ok manifest →
        manifest.constraint? ⟨"b.io"⟩ = some c → c.satisfiedBy (.branch "main" none) = true) :=
  satisfiedBy_of_run_solve (.inr ⟨_, _, rfl⟩) chainSource_hasPlainRoots
    (show (solve (chainParameters ⟨"a.io"⟩ "main") 2).run chainSource = .ok chainSolution by
      decide +kernel)
    (by decide +kernel)

end Search

end DepSolver
