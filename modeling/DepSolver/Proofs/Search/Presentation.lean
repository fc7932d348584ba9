import DepSolver.Proofs.ConstraintSet.Aggregate
import DepSolver.Proofs.Ignore
import DepSolver.Search.Parameters

/-!
Inputs that are presented in another way: manifests from other origins, and manifests and ignore
patterns in another order or repeated. They have the same digest.
-/

namespace DepSolver

theorem ConstraintSet.exists_aggregate_eq_ok {manifests manifests' : List (String × Manifest)}
    {s : ConstraintSet} (hs : aggregate manifests = .ok s)
    (hsame : ∀ m, m ∈ manifests.map (·.2) ↔ m ∈ manifests'.map (·.2)) :
    ∃ s', aggregate manifests' = .ok s' ∧ ∀ kind,
      (s.table kind).map (fun _ c => (c.constraint, c.source)) =
        (s'.table kind).map fun _ c => (c.constraint, c.source) := by
  have houtcome := sameOutcome_of_mem_iff hsame
  rw [hs] at houtcome
  cases hs' : aggregate manifests' with
  | error e =>
      rw [hs'] at houtcome
      exact houtcome.elim
  | ok s' =>
      rw [hs'] at houtcome
      exact ⟨s', rfl, houtcome⟩

namespace Parameters

private theorem constraintLines_eq_of_map_eq {kind : ConstraintKind}
    {t u : Table ProjectRoot MergedConstraint}
    (h : t.map (fun _ c => (c.constraint, c.source)) =
      u.map fun _ c => (c.constraint, c.source)) :
    constraintLines kind t = constraintLines kind u := by
  have hlines : ∀ t, constraintLines kind t =
      (t.map fun _ c => (c.constraint, c.source)).entries.map fun x =>
        s!"{kind.name} {x.1.path} {x.2.1} " ++ x.2.2.getD "-" := fun t => by
    rw [constraintLines, Table.map, List.map_map]
    rfl
  rw [hlines, hlines, h]

/-- The digest of the inputs does not depend on how they are presented: on the order of the
manifests, how often each of them is listed and from which origins; on the order of the ignore
patterns, how often each of them stands there and the blanks around and between them. Nor does it
depend on the lock and on the projects for which it counts. -/
theorem inputsDigest_eq_of_presentation {p : Parameters}
    {manifests manifests' : List (String × Manifest)} {patterns patterns' : List String}
    (hset : ConstraintSet.aggregate manifests = .ok p.constraints)
    (hrules : IgnoreRules.ofPatterns patterns = .ok p.ignored)
    (hmanifests : ∀ m, m ∈ manifests.map (·.2) ↔ m ∈ manifests'.map (·.2))
    (hpatterns : ∀ s, s ≠ "" → (s ∈ patterns.map Text.trim ↔ s ∈ patterns'.map Text.trim)) :
    ∃ set rules, ConstraintSet.aggregate manifests' = .ok set ∧
      IgnoreRules.ofPatterns patterns' = .ok rules ∧
      (∀ path, rules.ignores path = p.ignored.ignores path) ∧
      ∀ lock toChange changeAll,
        inputsDigest { p with
          constraints := set, ignored := rules, lock, toChange, changeAll } = p.inputsDigest := by
  obtain ⟨set, hset', htables⟩ := ConstraintSet.exists_aggregate_eq_ok hset hmanifests
  have hrules' : IgnoreRules.ofPatterns patterns' = .ok p.ignored := by
    apply IgnoreRules.ofPatterns_eq_of_mem_iff hrules
    intro s
    rw [IgnoreRules.mem_kept, IgnoreRules.mem_kept]
    exact and_congr_right (hpatterns s)
  refine ⟨set, p.ignored, hset', hrules', fun _ => rfl, fun lock toChange changeAll => ?_⟩
  have hdependencies : constraintLines .dependency set.dependencies =
      constraintLines .dependency p.constraints.dependencies :=
    constraintLines_eq_of_map_eq (htables .dependency).symm
  have hoverrides : constraintLines .override set.overrides =
      constraintLines .override p.constraints.overrides :=
    constraintLines_eq_of_map_eq (htables .override).symm
  rw [inputsDigest, inputsDigest, inputLines, inputLines, hdependencies, hoverrides]
  rfl

/-- Two manifests and two ignore patterns, each listed in two ways. -/
theorem inputsDigest_eq_of_branchManifests :
    let main := ConstraintSet.branchManifest ⟨"a.io"⟩ "main"
    let next := ConstraintSet.branchManifest ⟨"b.io"⟩ "next"
    ∃ (p : Parameters) (set : ConstraintSet) (rules : IgnoreRules),
      ConstraintSet.aggregate [("root.io", main), ("tools", next)] = .ok p.constraints ∧
      ConstraintSet.aggregate [("b", next), ("a", main), ("c", next)] = .ok set ∧
      IgnoreRules.ofPatterns ["x.io/*", "y.io"] = .ok p.ignored ∧
      IgnoreRules.ofPatterns ["y.io", " ", "x.io/* ", "y.io"] = .ok rules ∧
      inputsDigest { p with constraints := set, ignored := rules, changeAll := true } =
        p.inputsDigest := by
  intro main next
  obtain ⟨set, hset⟩ := exists_eq_ok_iff_isOk.mpr (show (ConstraintSet.aggregate
    [("root.io", main), ("tools", next)]).isOk = true by decide +kernel)
  obtain ⟨rules, hrules⟩ := exists_eq_ok_iff_isOk.mpr (show (IgnoreRules.ofPatterns
    ["x.io/*", "y.io"]).isOk = true by decide +kernel)
  let p : Parameters := { (default : Parameters) with constraints := set, ignored := rules }
  have hmanifests : ∀ m, m ∈ [("root.io", main), ("tools", next)].map (·.2) ↔
      m ∈ [("b", next), ("a", main), ("c", next)].map (·.2) := by
    intro m
    simp only [List.map_cons, List.map_nil, List.mem_cons, List.not_mem_nil]
    tauto
  have hpatterns : ∀ s, s ≠ "" → (s ∈ ["x.io/*", "y.io"].map Text.trim ↔
      s ∈ ["y.io", " ", "x.io/* ", "y.io"].map Text.trim) := by
    intro s hs
    have htrim : ["x.io/*", "y.io"].map Text.trim = ["x.io/*", "y.io"] ∧
        ["y.io", " ", "x.io/* ", "y.io"].map Text.trim = ["y.io", "", "x.io/*", "y.io"] := by
      decide +kernel
    simp only [htrim, List.mem_cons, List.not_mem_nil]
    tauto
  obtain ⟨set', rules', hset', hrules', -, hdigest⟩ :=
    inputsDigest_eq_of_presentation (p := p) hset hrules hmanifests hpatterns
  exact ⟨p, set', rules', hset, hset', hrules, hrules', hdigest none p.toChange true⟩

end Parameters

end DepSolver
