import DepSolver.Proofs.Constraint
import DepSolver.Proofs.Search.Demand
import DepSolver.Search.State

/-!
What recording a demand, meeting one and selecting a version do to the state of a search.
-/

namespace DepSolver

/-- A version satisfies the constraint on a project and some more constraints: the override alone if
there is one, else all that contributed to the project and the others. -/
def Parameters.Admits (p : Parameters) (root : ProjectRoot) (more : Set Constraint)
    (version : Version) : Prop :=
  match p.constraints.overrides.get? root with
  | some c => c.constraint.satisfiedBy version = true
  | none =>
      (∀ c, p.constraints.dependencies.get? root = some c →
        (Contribution.interAll c.contributions).satisfiedBy version = true) ∧
      ∀ c ∈ more, c.satisfiedBy version = true

theorem Parameters.Admits.anti {p : Parameters} {root : ProjectRoot} {less more : Set Constraint}
    {version : Version} (hsub : less ⊆ more) (h : p.Admits root more version) :
    p.Admits root less version := by
  rw [Parameters.Admits] at h ⊢
  split at h
  · exact h
  · exact ⟨h.1, fun c hc => h.2 c (hsub hc)⟩

namespace SearchState

def version? (s : SearchState) : Assignment :=
  fun root => (s.selected.get? root).map (·.version)

def needed (s : SearchState) (root : ProjectRoot) : Set String :=
  {path | s.required.Relates root path}

/-- What manifests contributed to the constraint on a project. -/
def contributed (s : SearchState) (root : ProjectRoot) : List Contribution :=
  (s.contributions.get? root).getD []

variable {s s' : SearchState} {p : Parameters} {d : Demand} {root : ProjectRoot}
  {version : Version} {imports : SortedSet String}

theorem version?_eq_some_iff : s.version? root = some version ↔
    ∃ x, s.selected.get? root = some x ∧ x.version = version := by
  rw [version?, Option.map_eq_some_iff]

theorem version?_of_get? {x : Selection} (hx : s.selected.get? root = some x) :
    s.version? root = some x.version :=
  version?_eq_some_iff.mpr ⟨x, hx, rfl⟩

/-- Select a version of a project, in place of what was selected of it. -/
def put (s : SearchState) (root : ProjectRoot) (x : Selection) : SearchState :=
  { s with selected := s.selected.insert root x }

theorem get?_put (s : SearchState) (root root' : ProjectRoot) (x : Selection) :
    (s.put root x).selected.get? root' =
      if root' = root then some x else s.selected.get? root' :=
  Table.get?_insert _ _ _ _

theorem version?_put (s : SearchState) (root root' : ProjectRoot) (x : Selection) :
    (s.put root x).version? root' =
      if root' = root then some x.version else s.version? root' := by
  rw [version?, version?, get?_put]
  split <;> rfl

theorem version?_put_of_eq {x y : Selection} (hx : s.selected.get? root = some x)
    (hversion : y.version = x.version) : (s.put root y).version? = s.version? := by
  funext root'
  rw [version?_put]
  split
  · rename_i heq
    rw [heq, version?, hx, hversion]
    rfl
  · rfl

theorem version?_put_of_eq_some {x : Selection} (hnone : s.selected.get? root = none)
    {root' : ProjectRoot} {version : Version} (hversion : s.version? root' = some version) :
    (s.put root x).version? root' = some version := by
  rw [version?_put, if_neg]
  · exact hversion
  · rintro rfl
    rw [version?, hnone] at hversion
    cases hversion

theorem mem_pending_iff :
    root ∈ s.pending ↔ root ∈ s.required.keys ∧ s.selected.get? root = none := by
  rw [pending, List.mem_filter, Bool.not_eq_true', Table.contains_eq_false_iff]

theorem exists_selected_of_pending_eq_nil (hdone : s.pending = [])
    (hroot : root ∈ s.required.keys) : ∃ x, s.selected.get? root = some x := by
  cases hx : s.selected.get? root with
  | some x => exact ⟨x, rfl⟩
  | none =>
      have hpending := mem_pending_iff.mpr ⟨hroot, hx⟩
      rw [hdone] at hpending
      cases hpending

theorem pairwise_pending (s : SearchState) : s.pending.Pairwise fun a b => compare a b = .lt :=
  s.required.pairwise_keys.filter _

/-! ### Constraints -/

theorem satisfiedBy_constraintOn :
    (s.constraintOn p root).satisfiedBy version = true ↔
      p.Admits root {c | ∃ x ∈ s.contributed root, x.constraint = c} version := by
  rw [constraintOn, contributionsTo, Parameters.Admits]
  cases p.constraints.overrides.get? root with
  | some c => rfl
  | none =>
      dsimp only
      rw [Contribution.satisfiedBy_interAll, List.forall_mem_append]
      refine and_congr ?_ ?_
      · cases p.constraints.dependencies.get? root with
        | none => simp
        | some c => simp [Contribution.satisfiedBy_interAll]
      · constructor
        · rintro h c ⟨x, hx, rfl⟩
          exact h x hx
        · intro h x hx
          exact h _ ⟨x, hx, rfl⟩

theorem declared?_eq_some_iff {importer : ProjectRoot} {c : Contribution} :
    s.declared? importer root = some c ↔
      ∃ x decl, s.selected.get? importer = some x ∧
        x.manifest.constraints.get? root = some decl ∧
        c = ⟨s!"{importer.path}@{x.version}", decl.constraint, decl.source⟩ := by
  cases hx : s.selected.get? importer with
  | none => simp [declared?, hx]
  | some x =>
      cases hdecl : x.manifest.constraints.get? root with
      | none => simp [declared?, hx, hdecl]
      | some decl => simp [declared?, hx, hdecl, eq_comm]

/-! ### Recording a demand -/

@[simp] theorem record_selected : (s.record d).selected = s.selected := rfl

theorem relates_record_required {path : String} :
    (s.record d).required.Relates root path ↔
      s.required.Relates root path ∨ (root = d.target ∧ path ∈ d.packages) :=
  Table.relates_update_union

theorem relates_record_imports {importer : Option ProjectRoot} :
    (s.record d).imports.Relates importer root ↔
      s.imports.Relates importer root ∨ (importer = d.importer ∧ root = d.target) :=
  Table.relates_update_insert

theorem needed_record_of_ne (hne : root ≠ d.target) : (s.record d).needed root = s.needed root := by
  ext path
  change (s.record d).required.Relates root path ↔ s.required.Relates root path
  rw [relates_record_required]
  exact or_iff_left fun h => hne h.1

theorem contributed_record :
    (s.record d).contributed root =
      match d.importer.bind (s.declared? · d.target) with
      | some c =>
          if root = d.target ∧ ¬ (s.contributed root).any (·.origin = c.origin) then
            s.contributed root ++ [c]
          else s.contributed root
      | none => s.contributed root := by
  rw [contributed, record]
  dsimp only
  cases d.importer.bind (s.declared? · d.target) with
  | none => rfl
  | some c =>
      dsimp only
      rw [Table.get?_update, contributed]
      by_cases heq : root = d.target
      · subst heq
        cases h : ((s.contributions.get? d.target).getD []).any (·.origin = c.origin) <;> simp
      · simp [heq]

theorem contributed_subset_record : s.contributed root ⊆ (s.record d).contributed root := by
  rw [contributed_record]
  split
  · split
    · exact List.subset_append_left _ _
    · exact List.Subset.refl _
  · exact List.Subset.refl _

theorem mem_contributed_record {c : Contribution} (h : c ∈ (s.record d).contributed root) :
    c ∈ s.contributed root ∨
      (root = d.target ∧ ∃ importer, d.importer = some importer ∧
        s.declared? importer d.target = some c) := by
  rw [contributed_record] at h
  split at h
  · rename_i c' hc'
    split at h
    · rename_i hnew
      rcases List.mem_append.mp h with h | h
      · exact .inl h
      · obtain ⟨importer, himporter, hdeclared⟩ := Option.bind_eq_some_iff.mp hc'
        rw [List.mem_singleton.mp h]
        exact .inr ⟨hnew.1, importer, himporter, hdeclared⟩
    · exact .inl h
  · exact .inl h

theorem exists_origin_of_record {importer : ProjectRoot} {c : Contribution}
    (himporter : d.importer = some importer) (hdeclared : s.declared? importer d.target = some c) :
    ∃ c' ∈ (s.record d).contributed d.target, c'.origin = c.origin := by
  rw [contributed_record, himporter, Option.bind_some, hdeclared]
  dsimp only
  split
  · exact ⟨c, by simp, rfl⟩
  · rename_i hknown
    simp only [true_and, not_not, List.any_eq_true, decide_eq_true_eq] at hknown
    exact hknown

/-! ### Meeting a demand -/

/-- What meeting a demand on a selected project does. -/
structure Extends (p : Parameters) (s : SearchState) (d : Demand) (x : Selection)
    (s' : SearchState) (imports : SortedSet String) : Prop where
  selected : s.selected.get? d.target = some x
  satisfied : ((s.record d).constraintOn p d.target).satisfiedBy x.version = true
  reached : ∃ reach, x.tree.reach (d.packages.diff x.packages).toList p.ignored false = .ok reach ∧
    s' = (s.record d).put d.target { x with packages := x.packages.union reach.internal } ∧
    imports = reach.external

theorem reach_nil (t : PackageTree) (ignored : IgnoreRules) (tests : Bool) :
    t.reach [] ignored tests = .ok .empty := by
  rw [PackageTree.reach]
  cases h : ([] : List String).length + t.importCount <;> rfl

private theorem put_eq_self {x : Selection} (hx : s.selected.get? root = some x) :
    s.put root { x with packages := x.packages.union .empty } = s := by
  have hpackages : x.packages.union .empty = x.packages := SortedSet.ext fun a => by simp
  rw [put, hpackages, Table.insert_eq_self hx]

theorem meet_eq_ok (h : s.meet p d = .ok (s', imports)) :
    (s.selected.get? d.target = none ∧ s' = s.record d ∧ imports = .empty) ∨
      ∃ x, s.Extends p d x s' imports := by
  rw [meet] at h
  dsimp only [record_selected] at h
  split at h
  · cases h
  · split at h
    · rename_i hnone
      cases h
      exact .inl ⟨hnone, rfl, rfl⟩
    · rename_i x hx
      right
      split at h
      · cases h
      · rename_i hsatisfied
        rw [Bool.not_eq_true, Bool.not_eq_false'] at hsatisfied
        refine ⟨x, hx, hsatisfied, ?_⟩
        split at h
        · rename_i hempty
          cases h
          refine ⟨.empty, ?_, (put_eq_self (s := s.record d) hx).symm, rfl⟩
          rw [SortedSet.eq_empty_of_isEmpty hempty]
          exact reach_nil _ _ _
        · split at h
          · cases h
          · rename_i reach hreach
            cases h
            exact ⟨reach, hreach, rfl, rfl⟩

theorem version?_of_meet (h : s.meet p d = .ok (s', imports)) : s'.version? = s.version? := by
  rcases meet_eq_ok h with ⟨-, rfl, -⟩ | ⟨x, hextends⟩
  · rfl
  · obtain ⟨reach, -, rfl, -⟩ := hextends.reached
    exact version?_put_of_eq (s := s.record d) hextends.selected rfl

theorem exists_meet_eq_ok
    (hsatisfied : ((s.record d).constraintOn p d.target).satisfiedBy version = true)
    (hselected : ∀ x, s.selected.get? d.target = some x → x.version = version ∧
      ∃ reach, x.tree.reach (d.packages.diff x.packages).toList p.ignored false = .ok reach) :
    ∃ s' imports, s.meet p d = .ok (s', imports) := by
  rw [meet]
  dsimp only [record_selected]
  rw [if_neg (by simp [Constraint.isNothing_eq_false_of_satisfiedBy hsatisfied])]
  cases hx : s.selected.get? d.target with
  | none => exact ⟨_, _, rfl⟩
  | some x =>
      obtain ⟨rfl, reach, hreach⟩ := hselected x hx
      dsimp only
      rw [if_neg (by simp [hsatisfied]), hreach]
      split
      · exact ⟨_, _, rfl⟩
      · exact ⟨_, _, rfl⟩

/-! ### Selecting a version -/

theorem select_eq_ok {tree : PackageTree} {manifest : Manifest}
    (h : s.select p root version tree manifest = .ok (s', imports)) :
    ∃ reach, tree.reach ((s.required.get? root).getD .empty).toList p.ignored false = .ok reach ∧
      s' = s.put root ⟨version, reach.internal, tree, manifest⟩ ∧ imports = reach.external := by
  rw [select] at h
  dsimp only at h
  split at h
  · cases h
  · rename_i reach hreach
    cases h
    exact ⟨reach, hreach, rfl, rfl⟩

theorem version?_of_select {tree : PackageTree} {manifest : Manifest}
    (h : s.select p root version tree manifest = .ok (s', imports)) :
    s'.version? = Function.update s.version? root (some version) := by
  obtain ⟨reach, -, rfl, -⟩ := select_eq_ok h
  funext other
  rw [version?_put, Function.update_apply]

theorem setOf_mem_required (s : SearchState) (root : ProjectRoot) :
    {seed | seed ∈ ((s.required.get? root).getD .empty).toList} = s.needed root := by
  ext path
  exact Table.relates_iff_mem_getD.symm

end SearchState

end DepSolver
