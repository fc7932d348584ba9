import DepSolver.Proofs.ConstraintSet

/-!
The aggregation of manifests. It fails over the declarations that clash, and otherwise merges all
declarations on each project, in whatever order the manifests come.
-/

namespace DepSolver

/-- What manifests declare on a project, in the order of the manifests. -/
def declaredOn (manifests : List (String × Manifest)) (kind : ConstraintKind) (root : ProjectRoot) :
    List Contribution :=
  manifests.filterMap fun x =>
    ((x.2.declarations kind).get? root).map fun d => ⟨x.1, d.constraint, d.source⟩

namespace Contributions

variable {kind : ConstraintKind} {root : ProjectRoot}
  {manifests manifests' : List (String × Manifest)}

def ofManifests (manifests : List (String × Manifest)) : Contributions :=
  ofAdditions (manifests.flatMap fun x => Addition.ofManifest x.1 x.2)

theorem contributionsTo_flatMap_ofManifest :
    Addition.contributionsTo kind root (manifests.flatMap fun x => Addition.ofManifest x.1 x.2) =
      declaredOn manifests kind root := by
  induction manifests with
  | nil => rfl
  | cons x rest ih =>
      rw [List.flatMap_cons, Addition.contributionsTo_append, Addition.contributionsTo_ofManifest,
        ih, declaredOn, declaredOn, List.filterMap_cons]
      cases (x.2.declarations kind).get? root <;> rfl

theorem get?_table_ofManifests :
    ((ofManifests manifests).table kind).get? root =
      if declaredOn manifests kind root = [] then none
      else some (declaredOn manifests kind root) := by
  rw [← contributionsTo_flatMap_ofManifest]
  split
  · rename_i hnil
    rw [Option.eq_none_iff_forall_ne_some]
    intro l hl
    obtain ⟨hne, rfl⟩ := get?_table_ofAdditions.mp hl
    exact hne hnil
  · rename_i hne
    exact get?_table_ofAdditions.mpr ⟨hne, rfl⟩

private theorem sameDeclarations_declaredOn
    (h : ∀ m, m ∈ manifests.map (·.2) ↔ m ∈ manifests'.map (·.2)) (kind : ConstraintKind)
    (root : ProjectRoot) :
    Contribution.SameDeclarations (declaredOn manifests kind root)
      (declaredOn manifests' kind root) := by
  have hmap : ∀ manifests, (declaredOn manifests kind root).map Contribution.declaration =
      (manifests.map (·.2)).filterMap fun m => (m.declarations kind).get? root := by
    intro manifests
    rw [declaredOn, List.map_filterMap, List.filterMap_map]
    congr
    funext x
    simp [Contribution.declaration, Function.comp_def]
  intro d
  rw [hmap, hmap, List.mem_filterMap, List.mem_filterMap]
  simp only [h]

theorem map_table_eq_of_mem_iff {α : Type} {f : List Contribution → α}
    (hf : ∀ l l', Contribution.SameDeclarations l l' → f l = f l')
    (h : ∀ m, m ∈ manifests.map (·.2) ↔ m ∈ manifests'.map (·.2)) (kind : ConstraintKind) :
    ((ofManifests manifests).table kind).map (fun _ l => f l) =
      ((ofManifests manifests').table kind).map fun _ l => f l := by
  apply Table.ext
  intro root
  have hsame := sameDeclarations_declaredOn h kind root
  simp only [Table.get?_map, get?_table_ofManifests, hsame.eq_nil_iff]
  split
  · rfl
  · rw [Option.map_some, Option.map_some, hf _ _ hsame]

private theorem map_clashes (kind : ConstraintKind) (t : Table ProjectRoot (List Contribution)) :
    (clashes kind t).map (fun x => (x.kind, x.root, x.reason)) =
      (t.map fun _ l => clash? l).entries.filterMap fun x =>
        x.2.map fun reason => (kind, x.1, reason) := by
  rw [clashes, Table.map, List.map_filterMap, List.filterMap_map]
  congr
  funext x
  simp [Function.comp_def, Option.map_map]

theorem map_allClashes_eq_of_mem_iff
    (h : ∀ m, m ∈ manifests.map (·.2) ↔ m ∈ manifests'.map (·.2)) :
    (ofManifests manifests).allClashes.map (fun x => (x.kind, x.root, x.reason)) =
      (ofManifests manifests').allClashes.map fun x => (x.kind, x.root, x.reason) := by
  have htable := map_table_eq_of_mem_iff (fun _ _ => clash?_eq_of_sameDeclarations) h
  rw [allClashes, allClashes, List.map_append, List.map_append, map_clashes, map_clashes,
    map_clashes, map_clashes]
  exact congrArg₂ (· ++ ·) (congrArg _ (congrArg Table.entries (htable .dependency)))
    (congrArg _ (congrArg Table.entries (htable .override)))

end Contributions

/-- A merged constraint stands for contributions: it admits what all of them admit, and has the
source that they name, if they name one. -/
structure MergedConstraint.Merges (m : MergedConstraint) (l : List Contribution) : Prop where
  contributions_eq : m.contributions = l
  satisfiedBy_iff : ∀ v, m.constraint.satisfiedBy v = true ↔
    ∀ x ∈ l, x.constraint.satisfiedBy v = true
  source_eq_some_iff : ∀ source, m.source = some source ↔ ∃ x ∈ l, x.source = some source

theorem Contributions.merges_of_clash?_eq_none {l : List Contribution} (h : clash? l = none) :
    MergedConstraint.Merges ⟨Contribution.interAll l, (sourcesOf l).head?, l⟩ l where
  contributions_eq := rfl
  satisfiedBy_iff _ := Contribution.satisfiedBy_interAll
  source_eq_some_iff source := by
    have hfew : (sourcesOf l).length ≤ 1 := by
      rw [clash?] at h
      split at h
      · cases h
      · split at h
        · cases h
        · omega
    rw [← mem_sourcesOf]
    cases hfound : sourcesOf l with
    | nil => simp
    | cons first rest =>
        rw [hfound, List.length_cons] at hfew
        obtain rfl : rest = [] := List.length_eq_zero_iff.mp (by omega)
        simp [eq_comm]

namespace ConstraintSet

variable {manifests manifests' : List (String × Manifest)} {kind : ConstraintKind}
  {root : ProjectRoot} {e e' : AggregateError} {s s' : ConstraintSet} {x : ConstraintClash}

theorem aggregate_eq_build (manifests : List (String × Manifest)) :
    aggregate manifests = (Contributions.ofManifests manifests).build := by
  rw [aggregate, Contributions.foldl_addManifest_eq, Contributions.ofManifests]

theorem mem_allClashes_ofManifests :
    x ∈ (Contributions.ofManifests manifests).allClashes ↔
      x.contributions = declaredOn manifests x.kind x.root ∧ x.reason.Holds x.contributions := by
  rw [Contributions.ofManifests, Contributions.mem_allClashes_ofAdditions,
    Contributions.contributionsTo_flatMap_ofManifest]

/-- What the aggregation of manifests comes to. It fails over the projects whose declarations cannot
hold together, and lists each of them once, in order, with all its declarations; or it merges the
declarations on each project. -/
structure MergesAll (manifests : List (String × Manifest))
    (result : Except AggregateError ConstraintSet) : Prop where
  fails_iff : (∃ e, result = .error e) ↔
    ∃ kind root, (Contribution.interAll (declaredOn manifests kind root)).isNothing = true ∨
      Contribution.SourcesDiffer (declaredOn manifests kind root)
  pairwise_clashes : ∀ e, result = .error e → e.clashes.Pairwise ConstraintClash.ListedBefore
  mem_clashes_iff : ∀ e, result = .error e → ∀ x, x ∈ e.clashes ↔
    x.contributions = declaredOn manifests x.kind x.root ∧ x.reason.Holds x.contributions
  contains_iff : ∀ s, result = .ok s → ∀ kind root,
    (s.table kind).contains root = true ↔ declaredOn manifests kind root ≠ []
  merges : ∀ s, result = .ok s → ∀ kind root m, (s.table kind).get? root = some m →
    m.Merges (declaredOn manifests kind root)

theorem aggregate_mergesAll (manifests : List (String × Manifest)) :
    MergesAll manifests (aggregate manifests) := by
  rw [aggregate_eq_build]
  constructor
  case fails_iff =>
    simp only [← Clash.exists_holds_iff]
    constructor
    · rintro ⟨e, he⟩
      obtain ⟨x, hx⟩ := List.exists_mem_of_ne_nil _ (Contributions.build_eq_error_iff.mp he).2
      obtain ⟨hlist, hreason⟩ := mem_allClashes_ofManifests.mp hx
      exact ⟨x.kind, x.root, x.reason, hlist ▸ hreason⟩
    · rintro ⟨kind, root, reason, hreason⟩
      have hmem : ⟨root, kind, reason, declaredOn manifests kind root⟩ ∈
          (Contributions.ofManifests manifests).allClashes :=
        mem_allClashes_ofManifests.mpr ⟨rfl, hreason⟩
      exact ⟨⟨_⟩, Contributions.build_eq_error_iff.mpr ⟨rfl, List.ne_nil_of_mem hmem⟩⟩
  case pairwise_clashes =>
    intro e he
    rw [(Contributions.build_eq_error_iff.mp he).1]
    exact Contributions.pairwise_allClashes _
  case mem_clashes_iff =>
    intro e he x
    rw [(Contributions.build_eq_error_iff.mp he).1, mem_allClashes_ofManifests]
  case contains_iff =>
    intro s hs kind root
    obtain ⟨-, rfl⟩ := Contributions.build_eq_ok_iff.mp hs
    rw [Table.contains, Contributions.get?_table_merged, Contributions.get?_table_ofManifests]
    split <;> simp_all
  case merges =>
    intro s hs kind root m hm
    obtain ⟨hnone, rfl⟩ := Contributions.build_eq_ok_iff.mp hs
    rw [Contributions.get?_table_merged, Contributions.get?_table_ofManifests,
      Option.map_eq_some_iff] at hm
    obtain ⟨l, hl, rfl⟩ := hm
    split at hl
    · cases hl
    cases hl
    apply Contributions.merges_of_clash?_eq_none
    rw [Option.eq_none_iff_forall_ne_some]
    intro reason hreason
    have hmem : ⟨root, kind, reason, declaredOn manifests kind root⟩ ∈
        (Contributions.ofManifests manifests).allClashes :=
      mem_allClashes_ofManifests.mpr ⟨rfl, Contributions.clash?_eq_some_iff.mp hreason⟩
    rw [hnone] at hmem
    cases hmem

/-- Two aggregations have the same outcome, apart from the order of contributions. -/
def SameOutcome : Except AggregateError ConstraintSet → Except AggregateError ConstraintSet → Prop
  | .error e, .error e' =>
      e.clashes.map (fun x => (x.kind, x.root, x.reason)) =
        e'.clashes.map fun x => (x.kind, x.root, x.reason)
  | .ok s, .ok s' => ∀ kind,
      (s.table kind).map (fun _ m => (m.constraint, m.source)) =
        (s'.table kind).map fun _ m => (m.constraint, m.source)
  | _, _ => False

private theorem map_table_merged (b : Contributions) (kind : ConstraintKind) :
    (b.merged.table kind).map (fun _ m => (m.constraint, m.source)) =
      (b.table kind).map fun _ l =>
        (Contribution.interAll l, (Contributions.sourcesOf l).head?) := by
  have hmerge : ∀ t, (Contributions.mergeTable t).map (fun _ m => (m.constraint, m.source)) =
      t.map fun _ l => (Contribution.interAll l, (Contributions.sourcesOf l).head?) := fun t => by
    rw [Contributions.mergeTable, Table.map_map]
  cases kind
  · exact hmerge b.dependencies
  · exact hmerge b.overrides

theorem sameOutcome_of_mem_iff (h : ∀ m, m ∈ manifests.map (·.2) ↔ m ∈ manifests'.map (·.2)) :
    SameOutcome (aggregate manifests) (aggregate manifests') := by
  have hclashes := Contributions.map_allClashes_eq_of_mem_iff h
  have hnil : (Contributions.ofManifests manifests).allClashes = [] ↔
      (Contributions.ofManifests manifests').allClashes = [] := by
    rw [← List.map_eq_nil_iff, hclashes, List.map_eq_nil_iff]
  rw [aggregate_eq_build, aggregate_eq_build]
  cases hb : (Contributions.ofManifests manifests).build with
  | error e =>
      obtain ⟨he, hne⟩ := Contributions.build_eq_error_iff.mp hb
      have hb' : (Contributions.ofManifests manifests').build =
          .error ⟨(Contributions.ofManifests manifests').allClashes⟩ :=
        Contributions.build_eq_error_iff.mpr ⟨rfl, mt hnil.mpr hne⟩
      rw [hb', SameOutcome, he]
      exact hclashes
  | ok s =>
      obtain ⟨hnone, rfl⟩ := Contributions.build_eq_ok_iff.mp hb
      have hb' := Contributions.build_eq_ok_iff.mpr ⟨hnil.mp hnone, rfl⟩
      rw [hb', SameOutcome]
      intro kind
      rw [map_table_merged, map_table_merged]
      refine Contributions.map_table_eq_of_mem_iff (fun l l' hsame => ?_) h kind
      rw [Contributions.interAll_eq_of_sameDeclarations hsame,
        Contributions.sourcesOf_eq_of_sameDeclarations hsame]

private theorem sameOutcome_of_perm (h : manifests.Perm manifests') :
    SameOutcome (aggregate manifests) (aggregate manifests') :=
  sameOutcome_of_mem_iff fun _ => (h.map _).mem_iff

theorem get?_table_ofManifest (origin : String) (m : Manifest) :
    ((ofManifest origin m).table kind).get? root =
      ((m.declarations kind).get? root).map fun d =>
        ⟨d.constraint, d.source, [⟨origin, d.constraint, d.source⟩]⟩ := by
  cases kind <;> exact Table.get?_map _ _ _

theorem aggregate_singleton {origin : String} {m : Manifest}
    (h : ∀ kind root d, (m.declarations kind).get? root = some d → d.constraint.isNothing = false) :
    aggregate [(origin, m)] = .ok (ofManifest origin m) := by
  have hdeclared : ∀ kind root, declaredOn [(origin, m)] kind root =
      (((m.declarations kind).get? root).map fun d => ⟨origin, d.constraint, d.source⟩).toList := by
    intro kind root
    rw [declaredOn, List.filterMap_cons]
    cases (m.declarations kind).get? root <;> rfl
  rw [aggregate_eq_build, Contributions.build_eq_ok_iff]
  constructor
  · rw [List.eq_nil_iff_forall_not_mem]
    intro x hx
    obtain ⟨hlist, hreason⟩ := mem_allClashes_ofManifests.mp hx
    rw [hlist, hdeclared, ← Contributions.clash?_eq_some_iff] at hreason
    cases hget : (m.declarations x.kind).get? x.root with
    | none =>
        rw [hget] at hreason
        cases hreason
    | some d =>
        rw [hget, Option.map_some, Option.toList_some,
          Contributions.clash?_singleton (h _ _ d hget)] at hreason
        cases hreason
  · apply ext_table
    intro kind
    apply Table.ext
    intro root
    rw [get?_table_ofManifest, Contributions.get?_table_merged,
      Contributions.get?_table_ofManifests, hdeclared]
    cases (m.declarations kind).get? root with
    | none => rfl
    | some d => simp [Contributions.interAll_singleton, Contributions.sourcesOf_singleton]

/-- Aggregation merges every declaration once, and in any order. -/
theorem aggregate_merges_declarations (manifests : List (String × Manifest)) :
    MergesAll manifests (aggregate manifests) ∧
      (∀ manifests', manifests.Perm manifests' →
        SameOutcome (aggregate manifests) (aggregate manifests')) ∧
      ∀ origin m, manifests = [(origin, m)] →
        (∀ kind root d, (m.declarations kind).get? root = some d →
          d.constraint.isNothing = false) →
        aggregate manifests = .ok (ofManifest origin m) := by
  refine ⟨aggregate_mergesAll manifests, fun _ => sameOutcome_of_perm, ?_⟩
  rintro origin m rfl h
  exact aggregate_singleton h

/-- The manifest that asks for a branch of a project. -/
def branchManifest (root : ProjectRoot) (name : String) : Manifest :=
  { Manifest.empty with constraints := Table.empty.insert root ⟨.branch name, none⟩ }

theorem aggregate_branchManifest :
    (let left := ("left", branchManifest ⟨"a.io"⟩ "main")
      let right := ("right", branchManifest ⟨"a.io"⟩ "next")
      [left, right].Perm [right, left] ∧
        SameOutcome (aggregate [left, right]) (aggregate [right, left])) ∧
      (∀ kind root d, ((branchManifest ⟨"a.io"⟩ "main").declarations kind).get? root = some d →
        d.constraint.isNothing = false) ∧
      aggregate [("left", branchManifest ⟨"a.io"⟩ "main")] =
        .ok (ofManifest "left" (branchManifest ⟨"a.io"⟩ "main")) := by
  have hdeclared : ∀ kind root d,
      ((branchManifest ⟨"a.io"⟩ "main").declarations kind).get? root = some d →
        d.constraint.isNothing = false := by
    intro kind root d hd
    cases kind with
    | dependency =>
        rw [Manifest.declarations, branchManifest, Table.get?_insert] at hd
        split at hd
        · cases hd
          rfl
        · cases hd
    | override => cases hd
  exact ⟨⟨.swap .., (aggregate_merges_declarations _).2.1 _ (.swap ..)⟩, hdeclared,
    (aggregate_merges_declarations _).2.2 _ _ rfl hdeclared⟩

end ConstraintSet

end DepSolver
