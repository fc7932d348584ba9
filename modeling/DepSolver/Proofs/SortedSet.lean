import DepSolver.Proofs.Sorting
import DepSolver.SortedSet
import Mathlib.Data.Set.Basic

/-!
Sorted sets by their elements. Each operation is described by what it does to membership, and two
sets with the same elements are equal.
-/

namespace DepSolver.SortedSet

variable {α : Type} [Ord α]

instance : Membership α (SortedSet α) := ⟨fun s a => a ∈ s.toList⟩

@[simp] theorem mem_toList {s : SortedSet α} {a : α} : a ∈ s.toList ↔ a ∈ s := Iff.rfl

@[simp] theorem not_mem_empty (a : α) : a ∉ (empty : SortedSet α) := List.not_mem_nil

@[simp] theorem mem_filter {s : SortedSet α} {keep : α → Bool} {a : α} :
    a ∈ s.filter keep ↔ a ∈ s ∧ keep a = true := List.mem_filter

theorem toList_injective : Function.Injective (toList : SortedSet α → List α) := by
  rintro ⟨l, hl⟩ ⟨l', hl'⟩ h
  cases h
  rfl

theorem eq_empty_of_isEmpty {s : SortedSet α} (h : s.isEmpty = true) : s = empty := by
  cases s with
  | mk toList sorted =>
      have hnil : toList = [] := List.isEmpty_iff.mp h
      subst hnil
      rfl

theorem nodup_toList [Std.ReflOrd α] (s : SortedSet α) : s.toList.Nodup :=
  Sorting.nodup_of_pairwise_lt s.sorted

theorem ext [Std.TransOrd α] {s t : SortedSet α} (h : ∀ a, a ∈ s ↔ a ∈ t) : s = t :=
  toList_injective (Sorting.eq_of_mem_iff s.sorted t.sorted h)

variable [Std.TransOrd α] [Std.LawfulEqOrd α]

theorem hasElement_iff {a : α} {l : List α}
    (hsorted : l.Pairwise fun x y => compare x y = .lt) : hasElement a l = true ↔ a ∈ l := by
  induction l with
  | nil => simp [hasElement]
  | cons b rest ih =>
      obtain ⟨hlater, hrest⟩ := List.pairwise_cons.mp hsorted
      rw [hasElement, List.mem_cons]
      split
      · rename_i hlt
        have hne : a ≠ b := by
          rintro rfl
          simp at hlt
        have hmem : a ∉ rest := fun hmem =>
          absurd (hlater a hmem) (Std.OrientedCmp.not_lt_of_lt hlt)
        simp [hne, hmem]
      · rename_i heq
        simp [Std.LawfulEqCmp.eq_of_compare heq]
      · rename_i hgt
        have hne : a ≠ b := by
          rintro rfl
          simp at hgt
        rw [ih hrest]
        simp [hne]

@[simp] theorem contains_iff {s : SortedSet α} {a : α} : s.contains a = true ↔ a ∈ s :=
  hasElement_iff s.sorted

theorem contains_eq_false_iff {s : SortedSet α} {a : α} : s.contains a = false ↔ a ∉ s := by
  rw [← contains_iff, Bool.not_eq_true]

@[simp] theorem mem_diff {s t : SortedSet α} {a : α} : a ∈ s.diff t ↔ a ∈ s ∧ a ∉ t := by
  simp [diff, contains_eq_false_iff]

omit [Std.TransOrd α] in
@[simp] theorem mem_erase {s : SortedSet α} {a x : α} : x ∈ s.erase a ↔ x ≠ a ∧ x ∈ s := by
  rw [erase, mem_filter, bne_iff_ne, ne_eq, Std.LawfulEqCmp.compare_eq_iff_eq, and_comm, eq_comm]

omit [Std.TransOrd α] in
theorem mem_place_iff {a x : α} {l : List α} : x ∈ place a l ↔ x = a ∨ x ∈ l := by
  refine ⟨mem_place, ?_⟩
  induction l with
  | nil => simp [place]
  | cons b rest ih =>
      rw [place]
      split
      · simp
      · rename_i heq
        rw [Std.LawfulEqCmp.eq_of_compare heq]
        simp
      · simp only [List.mem_cons] at ih ⊢
        tauto

@[simp] theorem mem_insert {s : SortedSet α} {a x : α} : x ∈ s.insert a ↔ x = a ∨ x ∈ s :=
  mem_place_iff

@[simp] theorem mem_insertAll {s : SortedSet α} {l : List α} {x : α} :
    x ∈ s.insertAll l ↔ x ∈ s ∨ x ∈ l := by
  induction l generalizing s with
  | nil => simp [insertAll]
  | cons a rest ih =>
      rw [insertAll, List.foldl_cons, ← insertAll, ih]
      simp only [mem_insert, List.mem_cons]
      tauto

@[simp] theorem mem_ofList {l : List α} {x : α} : x ∈ ofList l ↔ x ∈ l := by
  simp [ofList]

@[simp] theorem mem_union {s t : SortedSet α} {x : α} : x ∈ s.union t ↔ x ∈ s ∨ x ∈ t := by
  simp [union]

omit [Std.LawfulEqOrd α] in
theorem ofList_append (l l' : List α) : ofList (l ++ l') = (ofList l).insertAll l' :=
  List.foldl_append

theorem ofList_toList (s : SortedSet α) : ofList s.toList = s :=
  ext fun _ => mem_ofList

end DepSolver.SortedSet
