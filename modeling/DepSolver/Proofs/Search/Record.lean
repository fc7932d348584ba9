import DepSolver.Proofs.Table
import DepSolver.Search.Solver

/-!
The conflicts in the record of a search, and the trace of a failure that is made of them.
-/

namespace DepSolver.SearchRecord

variable {r : SearchRecord} {c c' : ProjectConflict}

/-- The conflicts over a project, in the order in which they arose. -/
def conflictsOn (r : SearchRecord) (root : ProjectRoot) : List ProjectConflict :=
  (r.conflicts.get? root).getD []

theorem mem_toFailure_iff : c ∈ r.toFailure.conflicts ↔ ∃ root, c ∈ r.conflictsOn root := by
  rw [toFailure, List.mem_flatten]
  constructor
  · rintro ⟨l, hl, hmem⟩
    obtain ⟨root, hroot⟩ := Table.mem_values_iff.mp hl
    refine ⟨root, ?_⟩
    rw [conflictsOn, hroot]
    exact hmem
  · rintro ⟨root, hmem⟩
    rw [conflictsOn] at hmem
    cases hroot : r.conflicts.get? root with
    | none =>
        rw [hroot] at hmem
        cases hmem
    | some l =>
        rw [hroot] at hmem
        exact ⟨l, Table.mem_values_iff.mpr ⟨root, hroot⟩, hmem⟩

theorem conflictsOn_add (r : SearchRecord) (c : ProjectConflict) (root : ProjectRoot) :
    (r.add c).conflictsOn root =
      if root = c.root ∧ c ∉ r.conflictsOn root then r.conflictsOn root ++ [c]
      else r.conflictsOn root := by
  rw [conflictsOn, add, Table.get?_update]
  by_cases hroot : root = c.root
  · simp [hroot, conflictsOn]
  · simp [hroot, conflictsOn]

theorem mem_toFailure_add :
    c ∈ (r.add c').toFailure.conflicts ↔ c ∈ r.toFailure.conflicts ∨ c = c' := by
  simp only [mem_toFailure_iff, conflictsOn_add]
  constructor
  · rintro ⟨root, hmem⟩
    split at hmem
    · rcases List.mem_append.mp hmem with hmem | hmem
      · exact .inl ⟨root, hmem⟩
      · exact .inr (List.mem_singleton.mp hmem)
    · exact .inl ⟨root, hmem⟩
  · rintro (⟨root, hmem⟩ | rfl)
    · refine ⟨root, ?_⟩
      split
      · exact List.mem_append_left _ hmem
      · exact hmem
    · refine ⟨c.root, ?_⟩
      split
      · exact List.mem_append_right _ List.mem_cons_self
      · rename_i hknown
        simpa using hknown

theorem toFailure_add_ne_nil (r : SearchRecord) (c : ProjectConflict) :
    (r.add c).toFailure.conflicts ≠ [] :=
  List.ne_nil_of_mem (mem_toFailure_add.mpr (.inr rfl))

/-- The conflicts over a project name it, and none of them is recorded twice. -/
structure IsKeyed (r : SearchRecord) : Prop where
  root_eq : ∀ root, ∀ c ∈ r.conflictsOn root, c.root = root
  nodup : ∀ root, (r.conflictsOn root).Nodup

theorem IsKeyed.empty : IsKeyed .empty where
  root_eq _ _ hc := by cases hc
  nodup _ := .nil

theorem IsKeyed.add (h : r.IsKeyed) (c : ProjectConflict) : (r.add c).IsKeyed := by
  constructor
  · intro root x hx
    rw [conflictsOn_add] at hx
    split at hx
    · rename_i hnew
      rcases List.mem_append.mp hx with hx | hx
      · exact h.root_eq root x hx
      · rw [List.mem_singleton.mp hx]
        exact hnew.1.symm
    · exact h.root_eq root x hx
  · intro root
    rw [conflictsOn_add]
    split
    · rename_i hnew
      exact List.nodup_append_comm.mp (List.nodup_cons.mpr ⟨hnew.2, h.nodup root⟩)
    · exact h.nodup root

theorem IsKeyed.count (h : r.IsKeyed) (attempts : Nat) : { r with attempts }.IsKeyed :=
  ⟨h.root_eq, h.nodup⟩

/-- What holds between the conflicts over each project in their order, and between conflicts over
projects in increasing order, holds between the conflicts of a trace. -/
theorem IsKeyed.pairwise_toFailure (h : r.IsKeyed) {R : ProjectConflict → ProjectConflict → Prop}
    (hwithin : ∀ root, (r.conflictsOn root).Pairwise R)
    (hacross : ∀ a b : ProjectConflict, compare a.root b.root = .lt → R a b) :
    r.toFailure.conflicts.Pairwise R := by
  have hon : ∀ x ∈ r.conflicts.entries, r.conflictsOn x.1 = x.2 := by
    intro x hx
    rw [conflictsOn, Table.get?_eq_some_iff.mpr hx, Option.getD_some]
  rw [toFailure, List.pairwise_flatten, Table.values, List.pairwise_map]
  constructor
  · intro l hl
    obtain ⟨x, hx, rfl⟩ := List.mem_map.mp hl
    rw [← hon x hx]
    exact hwithin x.1
  · refine r.conflicts.sorted.imp_of_mem ?_
    intro x y hx hy hlt a ha b hb
    rw [← hon x hx] at ha
    rw [← hon y hy] at hb
    refine hacross a b ?_
    rw [h.root_eq x.1 a ha, h.root_eq y.1 b hb]
    exact hlt

theorem IsKeyed.nodup_toFailure (h : r.IsKeyed) : r.toFailure.conflicts.Nodup := by
  refine h.pairwise_toFailure h.nodup ?_
  rintro a _ hlt rfl
  rw [Std.ReflOrd.compare_self] at hlt
  cases hlt

theorem IsKeyed.sorted_toFailure (h : r.IsKeyed) :
    r.toFailure.conflicts.Pairwise fun a b => (compare a.root b.root).isLE := by
  refine h.pairwise_toFailure ?_ fun a b hlt => Ordering.isLE_of_eq_lt hlt
  intro root
  refine List.pairwise_of_forall_mem_list ?_
  intro a ha b hb
  rw [h.root_eq root a ha, h.root_eq root b hb, Std.ReflOrd.compare_self]
  rfl

end DepSolver.SearchRecord
