import DepSolver.Sorting
import Mathlib.Data.List.Nodup

/-!
Lists in strictly increasing order, which have no element twice and are known by their elements;
the order of a sorted list; and what a binary search of one finds.
-/

namespace DepSolver.Sorting

variable {α β : Type} {cmp : α → α → Ordering} {l l' : List α}

theorem nodup_of_pairwise_lt [Std.ReflCmp cmp] (h : l.Pairwise fun a b => cmp a b = .lt) :
    l.Nodup := by
  apply h.imp
  rintro a b hlt rfl
  simp [Std.ReflCmp.compare_self] at hlt

theorem eq_of_mem_iff [Std.TransCmp cmp] (h : l.Pairwise fun a b => cmp a b = .lt)
    (h' : l'.Pairwise fun a b => cmp a b = .lt) (hmem : ∀ a, a ∈ l ↔ a ∈ l') : l = l' := by
  have hperm : l.Perm l' :=
    (List.perm_ext_iff_of_nodup (nodup_of_pairwise_lt h) (nodup_of_pairwise_lt h')).mpr hmem
  refine hperm.eq_of_pairwise (fun a b _ _ hab hba => ?_) h h'
  exact absurd hba (Std.OrientedCmp.not_lt_of_lt hab)

theorem pairwise_lt_of_ne [Std.LawfulEqCmp cmp] {key : β → α} {l : List β}
    (hsorted : l.Pairwise fun x y => (cmp (key x) (key y)).isLE)
    (hne : l.Pairwise fun x y => key x ≠ key y) :
    l.Pairwise fun x y => cmp (key x) (key y) = .lt := by
  refine (hsorted.and hne).imp fun {x y} ⟨hle, hne⟩ => ?_
  rcases Ordering.isLE_iff_eq_lt_or_eq_eq.mp hle with hlt | heq
  · exact hlt
  · exact absurd (Std.LawfulEqCmp.eq_of_compare heq) hne

variable {test : α → Ordering} {x : α}

theorem mem_of_search?_eq_some (h : search? test l = some x) : x ∈ l ∧ test x = .eq := by
  obtain ⟨hget, htest⟩ := Option.filter_eq_some_iff.mp h
  exact ⟨List.mem_of_getElem? hget, by simpa using htest⟩

/-- A list in which the elements that a test finds too small are before those that it finds equal,
and these before those that it finds too large. -/
def IsInOrderOf (test : α → Ordering) (l : List α) : Prop :=
  l.Pairwise fun x y => (test x = .eq → test y ≠ .lt) ∧ (test x = .gt → test y = .gt)

theorem exists_getElem?_searchFrom (horder : IsInOrderOf test l) {fuel size base : Nat}
    (hfuel : size ≤ fuel) (hbound : base + size ≤ l.length)
    (h : ∃ i, ∃ hi : i < l.length, base ≤ i ∧ i < base + size ∧ test l[i] = .eq) :
    ∃ x, l[searchFrom test l fuel size base]? = some x ∧ test x = .eq := by
  obtain ⟨i, hi, hle, hlt, htest⟩ := h
  induction fuel generalizing size base i with
  | zero => omega
  | succ fuel ih =>
      rw [searchFrom]
      split
      · obtain rfl : i = base := by omega
        exact ⟨l[i], List.getElem?_eq_getElem hi, htest⟩
      have hmiddle : base + size / 2 < l.length := by omega
      have horder' := List.pairwise_iff_getElem.mp horder
      simp only [List.getElem?_eq_getElem hmiddle, Option.any_some, decide_eq_true_eq]
      split
      · rename_i hgt
        refine ih (by omega) (by omega) i hi hle ?_ htest
        by_contra hnot
        rcases Nat.eq_or_lt_of_le (show base + size / 2 ≤ i by omega) with rfl | hbefore
        · exact absurd (htest.symm.trans hgt) (by decide)
        · exact absurd (htest.symm.trans ((horder' _ i hmiddle hi hbefore).2 hgt)) (by decide)
      · rename_i hngt
        rcases Nat.lt_or_ge i (base + size / 2) with hbefore | hge
        · have hnlt := (horder' i _ hi hmiddle hbefore).1 htest
          refine ih (by omega) (by omega) _ hmiddle (Nat.le_refl _) (by omega) ?_
          cases hcase : test l[base + size / 2] with
          | lt => exact absurd hcase hnlt
          | eq => rfl
          | gt => exact absurd hcase hngt
        · exact ih (by omega) (by omega) i hi hge (by omega) htest

theorem exists_search?_eq_some (horder : IsInOrderOf test l) (hx : x ∈ l) (htest : test x = .eq) :
    ∃ y, search? test l = some y := by
  obtain ⟨i, hi, rfl⟩ := List.getElem_of_mem hx
  have hbound : 0 + l.length ≤ l.length := by omega
  obtain ⟨y, hget, hy⟩ := exists_getElem?_searchFrom horder (Nat.le_refl l.length) hbound
    ⟨i, hi, Nat.zero_le i, by omega, htest⟩
  exact ⟨y, by rw [search?, hget]; simp [hy]⟩

theorem isInOrderOf_key [Std.TransCmp cmp] {key : β → α} {l : List β}
    (h : l.Pairwise fun x y => (cmp (key x) (key y)).isLE) (a : α) :
    IsInOrderOf (fun x => cmp (key x) a) l := by
  refine h.imp fun {x y} hle => ⟨fun heq hlt => ?_, fun hgt => ?_⟩
  · have hlt' := Std.TransCmp.lt_of_isLE_of_lt hle hlt
    exact absurd (heq.symm.trans hlt') (by decide)
  · exact Std.OrientedCmp.gt_of_lt
      (Std.TransCmp.lt_of_lt_of_isLE (Std.OrientedCmp.lt_of_gt hgt) hle)

end DepSolver.Sorting
