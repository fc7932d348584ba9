/-!
Stable sorting by a comparison, and binary search. Sorting places an element before the first one it
does not exceed, so elements that compare equal keep their order.
-/

namespace DepSolver.Sorting

/-- Place `a` before the first element that it does not exceed. -/
def insert {α : Type} (cmp : α → α → Ordering) (a : α) : List α → List α
  | [] => [a]
  | b :: rest =>
      match cmp a b with
      | .gt => b :: insert cmp a rest
      | _ => a :: b :: rest

/-- The elements of a list in increasing order; equal elements keep their order. -/
def sort {α : Type} (cmp : α → α → Ordering) : List α → List α
  | [] => []
  | a :: rest => insert cmp a (sort cmp rest)

/-- The place where a binary search ends among the `size` elements from `base` on. It goes on from
the middle one unless that is too large; `fuel` may be the size. -/
def searchFrom {α : Type} (test : α → Ordering) (l : List α) : (fuel size base : Nat) → Nat
  | 0, _, base => base
  | fuel + 1, size, base =>
      if size ≤ 1 then base
      else
        let middle := base + size / 2
        let isTooLarge := l[middle]?.any (test · = .gt)
        searchFrom test l fuel (size - size / 2) (if isTooLarge then base else middle)

/-- An element that passes a test as equal, found by binary search in a list that is in order. -/
def search? {α : Type} (test : α → Ordering) (l : List α) : Option α :=
  l[searchFrom test l l.length l.length 0]?.filter (test · = .eq)

theorem insert_perm {α : Type} (cmp : α → α → Ordering) (a : α) (l : List α) :
    (insert cmp a l).Perm (a :: l) := by
  induction l with
  | nil => exact .refl _
  | cons b rest ih =>
      simp only [insert]
      split
      · exact (ih.cons b).trans (.swap a b rest)
      · exact .refl _

theorem sort_perm {α : Type} (cmp : α → α → Ordering) (l : List α) : (sort cmp l).Perm l := by
  induction l with
  | nil => exact .refl _
  | cons a rest ih => exact (insert_perm cmp a _).trans (ih.cons a)

theorem mem_sort {α : Type} {cmp : α → α → Ordering} {a : α} {l : List α} :
    a ∈ sort cmp l ↔ a ∈ l :=
  (sort_perm cmp l).mem_iff

theorem insert_pairwise {α : Type} {cmp : α → α → Ordering} [Std.TransCmp cmp] (a : α)
    {l : List α} (sorted : l.Pairwise fun x y => (cmp x y).isLE) :
    (insert cmp a l).Pairwise fun x y => (cmp x y).isLE := by
  induction l with
  | nil => simp [insert]
  | cons b rest ih =>
      rw [List.pairwise_cons] at sorted
      simp only [insert]
      split
      · rename_i gt
        refine List.pairwise_cons.2 ⟨fun c mem => ?_, ih sorted.2⟩
        rcases List.mem_cons.1 ((insert_perm cmp a rest).mem_iff.1 mem) with rfl | mem
        · exact Std.OrientedCmp.isGE_iff_isLE.1 (by simp [gt])
        · exact sorted.1 c mem
      · rename_i notGt
        have le : (cmp a b).isLE := by
          cases h : cmp a b <;> simp_all
        refine List.pairwise_cons.2 ⟨fun c mem => ?_, List.pairwise_cons.2 sorted⟩
        rcases List.mem_cons.1 mem with rfl | mem
        · exact le
        · exact Std.TransCmp.isLE_trans le (sorted.1 c mem)

/-- Sorting puts no element after a smaller one. -/
theorem sort_pairwise {α : Type} {cmp : α → α → Ordering} [Std.TransCmp cmp] (l : List α) :
    (sort cmp l).Pairwise fun x y => (cmp x y).isLE := by
  induction l with
  | nil => exact .nil
  | cons a rest ih => exact insert_pairwise a ih

/-- Sorting leaves a list in order as it is. -/
theorem sort_eq_self {α : Type} {cmp : α → α → Ordering} {l : List α}
    (sorted : l.Pairwise fun x y => (cmp x y).isLE) : sort cmp l = l := by
  induction l with
  | nil => rfl
  | cons a rest ih =>
      rw [List.pairwise_cons] at sorted
      rw [sort, ih sorted.2]
      cases rest with
      | nil => rfl
      | cons b rest =>
          have le := sorted.1 b List.mem_cons_self
          rw [insert]
          split
          · rename_i gt
            simp [gt] at le
          · rfl

end DepSolver.Sorting
