import DepSolver.Proofs.Constraint.Meet
import DepSolver.Proofs.SortedSet
import Mathlib.Data.List.Induction

/-!
What contributions merge into. A table holds, for each project, the declarations that were added for
it, in their order. They clash if their constraints exclude each other or if they name different
sources; whether they do, and what they merge into, does not depend on their order.
-/

namespace DepSolver

def Manifest.declarations (m : Manifest) : ConstraintKind → Table ProjectRoot Declaration
  | .dependency => m.constraints
  | .override => m.overrides

def ConstraintSet.table (s : ConstraintSet) : ConstraintKind → Table ProjectRoot MergedConstraint
  | .dependency => s.dependencies
  | .override => s.overrides

theorem ConstraintSet.ext_table {s t : ConstraintSet} (h : ∀ kind, s.table kind = t.table kind) :
    s = t := by
  cases s
  cases t
  exact congrArg₂ mk (h .dependency) (h .override)

/-! ### Additions -/

/-- A declaration about a project that is added to a table. -/
structure Addition where
  kind : ConstraintKind
  origin : String
  root : ProjectRoot
  declaration : Declaration

namespace Addition

variable {kind : ConstraintKind} {root : ProjectRoot}

def contribution (x : Addition) : Contribution :=
  ⟨x.origin, x.declaration.constraint, x.declaration.source⟩

def ofManifest (origin : String) (m : Manifest) : List Addition :=
  m.constraints.entries.map (fun x => ⟨.dependency, origin, x.1, x.2⟩) ++
    m.overrides.entries.map (fun x => ⟨.override, origin, x.1, x.2⟩)

/-- What additions contribute to a project, in their order. -/
def contributionsTo (kind : ConstraintKind) (root : ProjectRoot) (l : List Addition) :
    List Contribution :=
  (l.filter fun x => x.kind = kind ∧ x.root = root).map contribution

theorem contributionsTo_append (l l' : List Addition) :
    contributionsTo kind root (l ++ l') =
      contributionsTo kind root l ++ contributionsTo kind root l' := by
  rw [contributionsTo, List.filter_append, List.map_append]
  rfl

private theorem contributionsTo_concat (l : List Addition) (x : Addition) :
    contributionsTo kind root (l ++ [x]) = contributionsTo kind root l ++
      if x.kind = kind ∧ x.root = root then [x.contribution] else [] := by
  rw [contributionsTo_append, contributionsTo, contributionsTo, List.filter_singleton]
  by_cases h : x.kind = kind ∧ x.root = root
  · simp [h]
  · simp [h]

private theorem contributionsTo_eq_nil {l : List Addition} (h : ∀ x ∈ l, x.kind ≠ kind) :
    contributionsTo kind root l = [] := by
  rw [contributionsTo, List.map_eq_nil_iff, List.filter_eq_nil_iff]
  intro x hx
  simp [h x hx]

private theorem contributionsTo_map_entries (origin : String) (kind' : ConstraintKind)
    (t : Table ProjectRoot Declaration) :
    contributionsTo kind root (t.entries.map fun x => ⟨kind', origin, x.1, x.2⟩) =
      if kind' = kind then
        ((t.get? root).map fun d => ⟨origin, d.constraint, d.source⟩).toList
      else [] := by
  rw [contributionsTo, List.filter_map, List.map_map]
  split
  · rename_i hkind
    have hfilter := t.filter_key_eq root
    simp only [Function.comp_def, hkind, true_and, hfilter]
    cases t.get? root <;> rfl
  · rename_i hkind
    simp [Function.comp_def, hkind]

theorem contributionsTo_ofManifest (origin : String) (m : Manifest) :
    contributionsTo kind root (ofManifest origin m) =
      (((m.declarations kind).get? root).map fun d => ⟨origin, d.constraint, d.source⟩).toList := by
  rw [ofManifest, contributionsTo_append, contributionsTo_map_entries, contributionsTo_map_entries]
  cases kind <;> simp [Manifest.declarations]

end Addition

namespace Contributions

variable {b : Contributions} {kind : ConstraintKind} {root : ProjectRoot} {l l' : List Contribution}
  {additions : List Addition} {reason : Clash} {x : ConstraintClash} {s : ConstraintSet}
  {e : AggregateError}

def table (b : Contributions) : ConstraintKind → Table ProjectRoot (List Contribution)
  | .dependency => b.dependencies
  | .override => b.overrides

def add (b : Contributions) (x : Addition) : Contributions :=
  match x.kind with
  | .dependency => b.addDependency x.origin x.root x.declaration
  | .override => b.addOverride x.origin x.root x.declaration

def ofAdditions (l : List Addition) : Contributions := l.foldl add empty

private theorem get?_table_add (b : Contributions) (x : Addition) (kind : ConstraintKind)
    (root : ProjectRoot) :
    ((b.add x).table kind).get? root =
      if x.kind = kind ∧ x.root = root then
        some (((b.table kind).get? root).getD [] ++ [x.contribution])
      else (b.table kind).get? root := by
  obtain ⟨kind', origin, root', declaration⟩ := x
  by_cases hroot : root' = root
  · cases kind <;> cases kind' <;>
      simp [add, table, addDependency, addOverride, push, Table.get?_update, hroot,
        Addition.contribution]
  · cases kind <;> cases kind' <;>
      simp [add, table, addDependency, addOverride, push, Table.get?_update, hroot,
        Ne.symm hroot]

theorem get?_table_ofAdditions :
    ((ofAdditions additions).table kind).get? root = some l ↔
      l ≠ [] ∧ l = Addition.contributionsTo kind root additions := by
  induction additions using List.reverseRecOn generalizing l with
  | nil =>
      have hempty : ((ofAdditions []).table kind).get? root = none := by cases kind <;> rfl
      simp [hempty, Addition.contributionsTo]
  | append_singleton rest x ih =>
      have hgetD : (((ofAdditions rest).table kind).get? root).getD [] =
          Addition.contributionsTo kind root rest := by
        cases hget : ((ofAdditions rest).table kind).get? root with
        | some l => exact (ih.mp hget).2
        | none =>
            by_contra hne
            rw [ih.mpr ⟨Ne.symm hne, rfl⟩] at hget
            cases hget
      rw [ofAdditions, List.foldl_concat, ← ofAdditions, get?_table_add,
        Addition.contributionsTo_concat, hgetD]
      split
      · rw [Option.some_inj]
        constructor
        · rintro rfl
          exact ⟨by simp, rfl⟩
        · exact fun h => h.2.symm
      · rw [ih, List.append_nil]

private theorem addManifest_eq (b : Contributions) (origin : String) (m : Manifest) :
    b.addManifest origin m = (Addition.ofManifest origin m).foldl add b := by
  rw [addManifest, Addition.ofManifest, List.foldl_append, List.foldl_map, List.foldl_map]
  rfl

theorem foldl_addManifest_eq (manifests : List (String × Manifest)) :
    manifests.foldl (fun b x => b.addManifest x.1 x.2) empty =
      ofAdditions (manifests.flatMap fun x => Addition.ofManifest x.1 x.2) := by
  rw [ofAdditions, List.foldl_flatMap]
  simp only [addManifest_eq]

end Contributions

/-! ### Contributions by what they declare -/

namespace Contribution

variable {l l' : List Contribution}

def declaration (x : Contribution) : Declaration := ⟨x.constraint, x.source⟩

/-- Two lists declare the same, from whatever origins, in whatever order and however often. -/
def SameDeclarations (l l' : List Contribution) : Prop :=
  ∀ d, d ∈ l.map declaration ↔ d ∈ l'.map declaration

theorem SameDeclarations.mem_map_iff {α : Type} (h : SameDeclarations l l') (f : Declaration → α)
    {a : α} :
    a ∈ l.map (fun x => f x.declaration) ↔ a ∈ l'.map fun x => f x.declaration := by
  have hmap : ∀ l : List Contribution,
      l.map (fun x => f x.declaration) = (l.map declaration).map f := fun l => by
    rw [List.map_map]
    rfl
  rw [hmap, hmap, List.mem_map, List.mem_map]
  simp only [h _]

theorem SameDeclarations.eq_nil_iff (h : SameDeclarations l l') : l = [] ↔ l' = [] := by
  rw [← List.map_eq_nil_iff (f := declaration), ← List.map_eq_nil_iff (f := declaration) (l := l'),
    List.eq_nil_iff_forall_not_mem, List.eq_nil_iff_forall_not_mem]
  exact forall_congr' fun d => not_congr (h d)

end Contribution

/-! ### Clashes -/

def Contribution.SourcesDiffer (l : List Contribution) : Prop :=
  ∃ a b, a ≠ b ∧ (∃ x ∈ l, x.source = some a) ∧ ∃ x ∈ l, x.source = some b

/-- Contributions cannot hold together for a reason: their constraints exclude each other, or, if
they do not, two of them name different sources. -/
def Clash.Holds (l : List Contribution) : Clash → Prop
  | disjoint => (Contribution.interAll l).isNothing = true
  | sources => (Contribution.interAll l).isNothing = false ∧ Contribution.SourcesDiffer l

theorem Clash.exists_holds_iff {l : List Contribution} :
    (∃ reason : Clash, reason.Holds l) ↔
      (Contribution.interAll l).isNothing = true ∨ Contribution.SourcesDiffer l := by
  constructor
  · rintro ⟨reason, h⟩
    cases reason with
    | disjoint => exact .inl h
    | sources => exact .inr h.2
  · intro h
    cases hnothing : (Contribution.interAll l).isNothing with
    | true => exact ⟨disjoint, hnothing⟩
    | false => exact ⟨sources, hnothing, h.resolve_left (by simp [hnothing])⟩

theorem Clash.Holds.ne_nil {l : List Contribution} {reason : Clash} (h : reason.Holds l) :
    l ≠ [] := by
  rintro rfl
  cases reason with
  | disjoint => cases (h : (Contribution.interAll []).isNothing = true)
  | sources =>
      obtain ⟨-, a, b, -, ⟨x, hx, -⟩, -⟩ := h
      simp at hx

namespace Contributions

variable {b : Contributions} {kind : ConstraintKind} {root : ProjectRoot} {l l' : List Contribution}
  {reason : Clash} {x : ConstraintClash} {s : ConstraintSet} {e : AggregateError}

theorem mem_sourcesOf {source : String} :
    source ∈ sourcesOf l ↔ ∃ x ∈ l, x.source = some source := by
  rw [sourcesOf, SortedSet.mem_toList, SortedSet.mem_ofList, List.mem_filterMap]

theorem one_lt_length_sourcesOf_iff :
    1 < (sourcesOf l).length ↔ Contribution.SourcesDiffer l := by
  simp only [Contribution.SourcesDiffer, ← mem_sourcesOf]
  have hnodup : (sourcesOf l).Nodup := SortedSet.nodup_toList _
  match sourcesOf l, hnodup with
  | [], _ => simp
  | [a], _ => simp
  | a :: b :: rest, hnodup =>
      have hne : a ≠ b := by
        rintro rfl
        simp at hnodup
      simp only [List.length_cons, Nat.one_lt_succ_succ, true_iff]
      exact ⟨a, b, hne, List.mem_cons_self, List.mem_cons_of_mem _ List.mem_cons_self⟩

theorem clash?_eq_some_iff : clash? l = some reason ↔ reason.Holds l := by
  rw [clash?]
  cases hnothing : (Contribution.interAll l).isNothing with
  | true => cases reason <;> simp [Clash.Holds, hnothing]
  | false =>
      rw [if_neg Bool.false_ne_true]
      split
      · rename_i hmany
        have hsources := one_lt_length_sourcesOf_iff.mp hmany
        cases reason <;> simp [Clash.Holds, hnothing, hsources]
      · rename_i hfew
        have hsources := mt one_lt_length_sourcesOf_iff.mpr hfew
        cases reason <;> simp [Clash.Holds, hnothing, hsources]

def allClashes (b : Contributions) : List ConstraintClash :=
  clashes .dependency b.dependencies ++ clashes .override b.overrides

/-- What contributions merge into, whether or not they can hold together. -/
def merged (b : Contributions) : ConstraintSet :=
  ⟨mergeTable b.dependencies, mergeTable b.overrides⟩

theorem build_eq_error_iff : b.build = .error e ↔ e.clashes = b.allClashes ∧ b.allClashes ≠ [] := by
  rw [build, ← allClashes]
  obtain ⟨found⟩ := e
  cases b.allClashes with
  | nil => simp
  | cons first rest => simp [eq_comm]

theorem build_eq_ok_iff : b.build = .ok s ↔ b.allClashes = [] ∧ s = b.merged := by
  rw [build, ← allClashes, merged]
  cases b.allClashes with
  | nil => simp [eq_comm]
  | cons first rest => simp

theorem mem_clashes {t : Table ProjectRoot (List Contribution)} :
    x ∈ clashes kind t ↔
      x.kind = kind ∧ t.get? x.root = some x.contributions ∧ x.reason.Holds x.contributions := by
  obtain ⟨root, kind', reason, l⟩ := x
  simp only [clashes, List.mem_filterMap, Option.map_eq_some_iff, clash?_eq_some_iff,
    ConstraintClash.mk.injEq, Table.get?_eq_some_iff]
  constructor
  · rintro ⟨⟨root', l'⟩, hmem, reason', hreason, rfl, rfl, rfl, rfl⟩
    exact ⟨rfl, hmem, hreason⟩
  · rintro ⟨rfl, hmem, hreason⟩
    exact ⟨(root, l), hmem, reason, hreason, rfl, rfl, rfl, rfl⟩

private theorem mem_allClashes :
    x ∈ b.allClashes ↔
      (b.table x.kind).get? x.root = some x.contributions ∧ x.reason.Holds x.contributions := by
  rw [allClashes, List.mem_append, mem_clashes, mem_clashes]
  cases hkind : x.kind <;> simp [table]

theorem mem_allClashes_ofAdditions {additions : List Addition} :
    x ∈ (ofAdditions additions).allClashes ↔
      x.contributions = Addition.contributionsTo x.kind x.root additions ∧
        x.reason.Holds x.contributions := by
  rw [mem_allClashes, get?_table_ofAdditions]
  exact ⟨fun hx => ⟨hx.1.2, hx.2⟩, fun hx => ⟨⟨hx.2.ne_nil, hx.1⟩, hx.2⟩⟩

theorem get?_table_merged :
    (b.merged.table kind).get? root = ((b.table kind).get? root).map fun l =>
      ⟨Contribution.interAll l, (sourcesOf l).head?, l⟩ := by
  cases kind <;> exact Table.get?_map _ _ _

theorem interAll_eq_of_sameDeclarations (h : Contribution.SameDeclarations l l') :
    Contribution.interAll l = Contribution.interAll l' := by
  apply Constraint.foldl_inter_congr
  intro c
  have hconstraint := h.mem_map_iff Declaration.constraint (a := c)
  simp only [List.mem_cons]
  exact or_congr_right hconstraint

theorem sourcesOf_eq_of_sameDeclarations (h : Contribution.SameDeclarations l l') :
    sourcesOf l = sourcesOf l' := by
  apply congrArg SortedSet.toList
  apply SortedSet.ext
  intro source
  have hsource := h.mem_map_iff Declaration.source (a := some source)
  rw [SortedSet.mem_ofList, SortedSet.mem_ofList, List.mem_filterMap, List.mem_filterMap]
  exact List.mem_map.symm.trans (hsource.trans List.mem_map)

theorem clash?_eq_of_sameDeclarations (h : Contribution.SameDeclarations l l') :
    clash? l = clash? l' := by
  rw [clash?, clash?, interAll_eq_of_sameDeclarations h, sourcesOf_eq_of_sameDeclarations h]

theorem interAll_singleton (x : Contribution) : Contribution.interAll [x] = x.constraint :=
  Constraint.any_inter x.constraint

theorem sourcesOf_singleton (x : Contribution) : sourcesOf [x] = x.source.toList := by
  cases hsource : x.source with
  | none => simp [sourcesOf, hsource, SortedSet.ofList, SortedSet.insertAll, SortedSet.empty]
  | some source =>
      simp [sourcesOf, hsource, SortedSet.ofList, SortedSet.insertAll, SortedSet.empty,
        SortedSet.insert, SortedSet.place]

theorem clash?_singleton {x : Contribution} (h : x.constraint.isNothing = false) :
    clash? [x] = none := by
  rw [clash?, interAll_singleton, h, sourcesOf_singleton]
  cases x.source <;> rfl

end Contributions

/-- A clash is listed before another one: those over dependencies before those over overrides, and
each of them in the order of the projects. -/
def ConstraintClash.ListedBefore (x y : ConstraintClash) : Prop :=
  x.kind = .dependency ∧ y.kind = .override ∨ x.kind = y.kind ∧ compare x.root y.root = .lt

theorem Contributions.pairwise_clashes (kind : ConstraintKind)
    (t : Table ProjectRoot (List Contribution)) :
    (clashes kind t).Pairwise ConstraintClash.ListedBefore := by
  rw [clashes, List.pairwise_filterMap]
  refine t.sorted.imp fun {a b} hlt x hx y hy => ?_
  rw [Option.map_eq_some_iff] at hx hy
  obtain ⟨reason, -, rfl⟩ := hx
  obtain ⟨reason', -, rfl⟩ := hy
  exact .inr ⟨rfl, hlt⟩

theorem Contributions.pairwise_allClashes (b : Contributions) :
    b.allClashes.Pairwise ConstraintClash.ListedBefore := by
  rw [allClashes, List.pairwise_append]
  refine ⟨pairwise_clashes _ _, pairwise_clashes _ _, fun x hx y hy => ?_⟩
  exact .inl ⟨(mem_clashes.mp hx).1, (mem_clashes.mp hy).1⟩

/-! ### Overrides -/

namespace Contributions

variable {additions : List Addition} {kind : ConstraintKind} {root : ProjectRoot}
  {e : AggregateError} {x : ConstraintClash}

/-- The overrides of a project are what is effective for it; its dependencies, if it has none. -/
theorem exists_effective?_merged
    (h : kind = .override ∨ Addition.contributionsTo .override root additions = [])
    (hne : Addition.contributionsTo kind root additions ≠ []) :
    ∃ c, (ofAdditions additions).merged.effective? root = some c ∧
      c.constraint = Contribution.interAll (Addition.contributionsTo kind root additions) := by
  have hmerged : ((ofAdditions additions).merged.table kind).get? root = _ := get?_table_merged
  rw [get?_table_ofAdditions.mpr ⟨hne, rfl⟩, Option.map_some] at hmerged
  refine ⟨_, .trans ?_ hmerged, rfl⟩
  change (((ofAdditions additions).merged.table .override).get? root).or
    (((ofAdditions additions).merged.table .dependency).get? root) = _
  cases kind with
  | override => rw [hmerged, Option.some_or]
  | dependency =>
      have hnone : ((ofAdditions additions).table .override).get? root = none := by
        rw [Option.eq_none_iff_forall_ne_some]
        intro l hl
        obtain ⟨hl, rfl⟩ := get?_table_ofAdditions.mp hl
        exact hl (h.resolve_left (by simp))
      rw [get?_table_merged, hnone, Option.map_none, Option.none_or]

/-- Constraints clash only if no version satisfies all of them. If they are overrides, or nothing
overrides them, then what would be effective admits no version. Overrides that are added do not
settle a clash over dependencies, since the two are merged apart from each other. -/
theorem not_satisfiedBy_of_build_eq_error (h : (ofAdditions additions).build = .error e)
    (hx : x ∈ e.clashes) (hreason : x.reason = .disjoint) :
    (∀ v, (Contribution.interAll
        (Addition.contributionsTo x.kind x.root additions)).satisfiedBy v = false) ∧
      (x.kind = .override ∨ Addition.contributionsTo .override x.root additions = [] →
        ∃ c, (ofAdditions additions).merged.effective? x.root = some c ∧
          ∀ v, c.constraint.satisfiedBy v = false) ∧
      (x.kind = .dependency → ∀ overrides : List Addition, (∀ y ∈ overrides, y.kind = .override) →
        ∃ e', (ofAdditions (additions ++ overrides)).build = .error e' ∧ x ∈ e'.clashes) := by
  rw [(build_eq_error_iff.mp h).1] at hx
  obtain ⟨hlist, hholds⟩ := mem_allClashes_ofAdditions.mp hx
  have hne := hholds.ne_nil
  have hnothing : (Contribution.interAll x.contributions).isNothing = true := by
    rwa [hreason] at hholds
  rw [hlist] at hne hnothing
  have hnone : ∀ v, (Contribution.interAll
      (Addition.contributionsTo x.kind x.root additions)).satisfiedBy v = false := by
    intro v
    rw [Bool.eq_false_iff]
    intro hv
    rw [Constraint.isNothing_eq_false_of_satisfiedBy hv] at hnothing
    cases hnothing
  refine ⟨hnone, fun hkind => ?_, fun hkind overrides hoverrides => ?_⟩
  · obtain ⟨c, hc, hconstraint⟩ := exists_effective?_merged hkind hne
    exact ⟨c, hc, hconstraint ▸ hnone⟩
  · have hnil : Addition.contributionsTo x.kind x.root overrides = [] :=
      Addition.contributionsTo_eq_nil fun y hy => by simp [hoverrides y hy, hkind]
    have happend : Addition.contributionsTo x.kind x.root (additions ++ overrides) =
        Addition.contributionsTo x.kind x.root additions := by
      rw [Addition.contributionsTo_append, hnil, List.append_nil]
    have hmem : x ∈ (ofAdditions (additions ++ overrides)).allClashes :=
      mem_allClashes_ofAdditions.mpr ⟨hlist.trans happend.symm, hholds⟩
    exact ⟨⟨_⟩, build_eq_error_iff.mpr ⟨rfl, List.ne_nil_of_mem hmem⟩, hmem⟩

/-- Two origins that ask for different branches of a project. -/
def branchAdditions : List Addition :=
  [⟨.dependency, "left", ⟨"a.io"⟩, ⟨.branch "main", none⟩⟩,
    ⟨.dependency, "right", ⟨"a.io"⟩, ⟨.branch "next", none⟩⟩]

theorem not_satisfiedBy_branchAdditions :
    ∃ e x, (ofAdditions branchAdditions).build = .error e ∧ x ∈ e.clashes ∧ x.reason = .disjoint ∧
      ∃ c, (ofAdditions branchAdditions).merged.effective? x.root = some c ∧
        ∀ v, c.constraint.satisfiedBy v = false := by
  let x : ConstraintClash := ⟨⟨"a.io"⟩, .dependency, .disjoint,
    branchAdditions.map Addition.contribution⟩
  have hbuild : (ofAdditions branchAdditions).build = .error ⟨[x]⟩ := by decide +kernel
  have hmem : x ∈ [x] := List.mem_singleton_self x
  exact ⟨_, x, hbuild, hmem, rfl,
    (not_satisfiedBy_of_build_eq_error hbuild hmem rfl).2.1 (.inr (by decide +kernel))⟩

/-- Overridden additions clash, though the override that would be effective admits a version. -/
theorem satisfiedBy_overridden_branchAdditions :
    let additions := branchAdditions ++ [⟨.override, "right", ⟨"a.io"⟩, ⟨.branch "next", none⟩⟩]
    ∃ e x, (ofAdditions additions).build = .error e ∧ x ∈ e.clashes ∧ x.reason = .disjoint ∧
      ∃ c, (ofAdditions additions).merged.effective? x.root = some c ∧
        c.constraint.satisfiedBy (.branch "next" none) = true := by
  let x : ConstraintClash := ⟨⟨"a.io"⟩, .dependency, .disjoint,
    branchAdditions.map Addition.contribution⟩
  exact ⟨⟨[x]⟩, x, by decide +kernel, List.mem_singleton_self x, rfl,
    ⟨.branch "next", none, [⟨"right", .branch "next", none⟩]⟩, by decide +kernel, by decide +kernel⟩

end Contributions

end DepSolver
