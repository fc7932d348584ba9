import DepSolver.Proofs.Search.Lockstep
import DepSolver.Proofs.Search.Run

/-!
An override silences every other constraint on its project. Neither the merged constraint on the
project nor what manifests declare on it, nor the parts of manifests that only the project that is
solved may set, have a part in what a search comes to.
-/

namespace DepSolver

/-- What a solution says about projects, apart from the digest of the inputs it was found for. -/
def Solution.content (s : Solution) :
    Table ProjectRoot LockedProject × Table (Option ProjectRoot) (SortedSet ProjectRoot) × Nat :=
  (s.projects, s.imports, s.attempts)

/-- Sources with the same projects, versions and packages, whose manifests declare the same but on
one project. -/
structure VersionSource.AgreesOff (root : ProjectRoot) (source source' : VersionSource) :
    Prop where
  rootOf_eq : ∀ path, source'.rootOf path = source.rootOf path
  versionsOf_eq : ∀ other, source'.versionsOf other = source.versionsOf other
  treeAt_eq : ∀ other version, source'.treeAt other version = source.treeAt other version
  manifestAt : ∀ other version, ResultsMatch Eq (Manifest.AgreesOff {root})
    (source.manifestAt other version) (source'.manifestAt other version)

/-- The same inputs with other merged dependency constraints. -/
def Parameters.withDependencies (p : Parameters) (t : Table ProjectRoot MergedConstraint) :
    Parameters :=
  { p with constraints := { p.constraints with dependencies := t } }

namespace Search

variable {source source' : VersionSource} {p : Parameters} {root other : ProjectRoot}
  {c : MergedConstraint} {dependencies : Table ProjectRoot MergedConstraint}

theorem AnswersAlike.of_agreesOff (h : source.AgreesOff root source') (p : Parameters) :
    AnswersAlike source source' p {root} where
  rootOf_eq path _ := h.rootOf_eq path
  versionsOf_eq other _ := h.versionsOf_eq other
  treeAt_eq other version _ := h.treeAt_eq other version
  manifestAt other version _ := h.manifestAt other version

section Override

variable (hoverride : p.constraints.overrides.get? root = some c)
  (hdependencies : ∀ other ≠ root, dependencies.get? other = p.constraints.dependencies.get? other)

include hoverride hdependencies

theorem contributionsTo_withDependencies {s t : SearchState} (h : s.AgreesOff {root} t)
    (other : ProjectRoot) :
    t.contributionsTo (p.withDependencies dependencies) other = s.contributionsTo p other := by
  rw [SearchState.contributionsTo, SearchState.contributionsTo, Parameters.withDependencies]
  by_cases hne : other = root
  · subst hne
    rw [hoverride]
  · have hcontributed := h.contributed_eq other hne
    rw [SearchState.contributed, SearchState.contributed] at hcontributed
    dsimp only
    rw [hdependencies other hne, hcontributed]

private theorem constraintOn_withDependencies {s t : SearchState} (h : s.AgreesOff {root} t)
    (other : ProjectRoot) :
    t.constraintOn (p.withDependencies dependencies) other = s.constraintOn p other := by
  rw [SearchState.constraintOn, SearchState.constraintOn,
    contributionsTo_withDependencies hoverride hdependencies h]
  rfl

private theorem effective?_withDependencies (other : ProjectRoot) :
    (p.withDependencies dependencies).constraints.effective? other =
      p.constraints.effective? other := by
  rw [ConstraintSet.effective?, ConstraintSet.effective?, Parameters.withDependencies]
  by_cases hne : other = root
  · subst hne
    rw [hoverride]
    rfl
  · dsimp only
    rw [hdependencies other hne]

theorem steersAlike_withDependencies :
    SteersAlike p (p.withDependencies dependencies) {root} Eq where
  hides_eq _ := rfl
  ignored_eq := rfl
  lockedVersion?_eq _ := rfl
  constraintOn_eq _ _ h := constraintOn_withDependencies hoverride hdependencies h
  conflict s t h other reason := by
    rintro r _ rfl
    rw [SearchState.conflict, SearchState.conflict,
      contributionsTo_withDependencies hoverride hdependencies h]
  attempt := by
    rintro r _ rfl
    rfl

private theorem content_toSolution_withDependencies {s t : SearchState} (h : s.AgreesOff {root} t)
    (attempts : Nat) :
    (t.toSolution (p.withDependencies dependencies) attempts).content =
      (s.toSolution p attempts).content := by
  rw [Solution.content, Solution.content, SearchState.toSolution, SearchState.toSolution]
  dsimp only
  rw [h.imports_eq, h.map_selected_eq]
  intro other x y hxy
  rw [hxy.version_eq, hxy.packages_eq,
    effective?_withDependencies hoverride hdependencies]

end Override

/-- Below an override of a project, a search comes to the same whatever else constrains it. -/
theorem run_solve_withDependencies (limit : Nat)
    (hoverride : p.constraints.overrides.get? root = some c)
    (hdependencies : ∀ other ≠ root,
      dependencies.get? other = p.constraints.dependencies.get? other)
    (hsources : source.AgreesOff root source') :
    ((solve (p.withDependencies dependencies) limit).run source').map Solution.content =
      ((solve p limit).run source).map Solution.content := by
  have hanswers := AnswersAlike.of_agreesOff hsources p
  have hsteers := steersAlike_withDependencies hoverride hdependencies
  have hmatch := hanswers.resultsMatch_run_solve hsteers limit
    (hanswers.goAlike_rootDemands hsteers rfl rfl) rfl
  generalize (solve p limit).run source = o at hmatch ⊢
  generalize (solve (p.withDependencies dependencies) limit).run source' = o' at hmatch ⊢
  cases hmatch with
  | error herrors =>
      cases herrors with
      | same e => rfl
      | unsatisfiable hrecords =>
          subst hrecords
          rfl
  | ok hsolutions =>
      obtain ⟨s, t, r, _, hagrees, rfl, rfl, rfl⟩ := hsolutions
      exact congrArg Except.ok
        (content_toSolution_withDependencies hoverride hdependencies hagrees r.attempts)

/-! ### An overridden project -/

/-- The constraint that takes `b.io` from a branch. -/
def onBranch (name : String) : Table ProjectRoot MergedConstraint :=
  .ofList [(⟨"b.io"⟩, ⟨.branch name, none, [⟨"root.io", .branch name, none⟩]⟩)]

/-- A project that imports `a.io` and overrides `b.io` with a branch. -/
def overridingParameters (name : String) : Parameters :=
  .ofTree (MemorySource.singlePackageTree ⟨"root.io"⟩ ["a.io"]) ⟨.empty, onBranch name⟩

/-- The chain of two projects, in which every manifest takes `b.io` from a branch that it does not
have and sets what only the project that is solved may set. -/
def redeclaredSource : VersionSource
  | .manifest _ _ =>
      .ok { takingBranch ⟨"b.io"⟩ "gone" with
        overrides := .ofList [(⟨"b.io"⟩, ⟨.branch "next", none⟩)]
        required := .ofList ["c.io"]
        ignored := ["a.io"] }
  | q => chainSource q

private theorem get?_onBranch_of_ne {root : ProjectRoot} (h : root ≠ ⟨"b.io"⟩) (name : String) :
    (onBranch name).get? root = none := by
  rw [onBranch, Table.ofList, List.foldl_cons, List.foldl_nil, Table.get?_insert, if_neg h]
  rfl

private theorem get?_takingBranch_of_ne {root target : ProjectRoot} (h : root ≠ target) (name :
    String) :
    (takingBranch target name).constraints.get? root = none := by
  rw [takingBranch, Table.ofList, List.foldl_cons, List.foldl_nil, Table.get?_insert, if_neg h]
  rfl

private theorem chainSource_agreesOff_redeclaredSource :
    chainSource.AgreesOff ⟨"b.io"⟩ redeclaredSource where
  rootOf_eq _ := rfl
  versionsOf_eq _ := rfl
  treeAt_eq _ _ := rfl
  manifestAt other version := by
    have hmanifest : chainSource.manifestAt other version =
        .ok (if other.path = "a.io" then takingBranch ⟨"b.io"⟩ "main" else .empty) := rfl
    rw [hmanifest]
    refine .ok fun root hroot => (get?_takingBranch_of_ne hroot "gone").trans ?_
    split
    · exact (get?_takingBranch_of_ne hroot "main").symm
    · rfl

/-- Both searches take `b.io` from the branch that the override names. -/
theorem run_solve_redeclaredSource :
    (overridingParameters "next").constraints.overrides.get? ⟨"b.io"⟩ =
      some ⟨.branch "next", none, [⟨"root.io", .branch "next", none⟩]⟩ ∧
    ((solve (overridingParameters "next") 2).run chainSource).map (·.version? ⟨"b.io"⟩) =
      .ok (some (.branch "next" none)) ∧
    ((solve ((overridingParameters "next").withDependencies (onBranch "gone")) 2).run
        redeclaredSource).map Solution.content =
      ((solve (overridingParameters "next") 2).run chainSource).map Solution.content := by
  have hoverride : (overridingParameters "next").constraints.overrides.get? ⟨"b.io"⟩ =
      some ⟨.branch "next", none, [⟨"root.io", .branch "next", none⟩]⟩ := by
    decide
  exact ⟨hoverride, by decide +kernel, run_solve_withDependencies 2 hoverride
    (fun _ hne => get?_onBranch_of_ne hne "gone") chainSource_agreesOff_redeclaredSource⟩

end Search

end DepSolver
