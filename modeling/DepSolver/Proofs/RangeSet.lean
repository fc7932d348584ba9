import DepSolver.RangeSet
import Mathlib.Data.List.Basic

/-!
Range sets by the cuts they cover, and by the versions they contain. Neither the canonical form nor
the joining of intervals changes what a union covers.
-/

namespace DepSolver

namespace Cut

theorem isLE_of_not_lt {a b : Cut} (h : ¬ compare a b = .lt) : (compare b a).isLE := by
  rw [← Std.OrientedCmp.isGE_iff_isLE]
  cases hab : compare a b <;> simp_all

theorem isLE_of_not_gt {a b : Cut} (h : ¬ compare a b = .gt) : (compare a b).isLE :=
  Ordering.isLE_iff_ne_gt.mpr h

theorem isLE_max_left {a b c : Cut} :
    (compare (a.max b) c).isLE ↔ (compare a c).isLE ∧ (compare b c).isLE := by
  rw [max]
  split
  · rename_i hlt
    have hle : (compare a b).isLE := by simp [hlt]
    exact ⟨fun h => ⟨Std.TransCmp.isLE_trans hle h, h⟩, fun h => h.2⟩
  · rename_i hge
    have hle := isLE_of_not_lt hge
    exact ⟨fun h => ⟨h, Std.TransCmp.isLE_trans hle h⟩, fun h => h.1⟩

theorem lt_min {a b c : Cut} :
    compare c (a.min b) = .lt ↔ compare c a = .lt ∧ compare c b = .lt := by
  rw [min]
  split
  · rename_i hgt
    have hlt : compare b a = .lt := Std.OrientedCmp.gt_iff_lt.mp hgt
    exact ⟨fun h => ⟨Std.TransCmp.lt_trans h hlt, h⟩, fun h => h.2⟩
  · rename_i hngt
    have hle := isLE_of_not_gt hngt
    exact ⟨fun h => ⟨h, Std.TransCmp.lt_of_lt_of_isLE h hle⟩, fun h => h.1⟩

theorem lt_max {a b c : Cut} :
    compare c (a.max b) = .lt ↔ compare c a = .lt ∨ compare c b = .lt := by
  rw [max]
  split
  · rename_i hlt
    refine ⟨Or.inr, ?_⟩
    rintro (h | h)
    · exact Std.TransCmp.lt_trans h hlt
    · exact h
  · rename_i hge
    have hle := isLE_of_not_lt hge
    refine ⟨Or.inl, ?_⟩
    rintro (h | h)
    · exact h
    · exact Std.TransCmp.lt_of_lt_of_isLE h hle

end Cut

namespace Interval

/-- A cut lies in an interval: not before its lower end, and before its upper end. -/
def Covers (i : Interval) (c : Cut) : Prop :=
  (compare i.lower c).isLE ∧ compare c i.upper = .lt

theorem contains_iff {i : Interval} {v : Semver} :
    i.contains v = true ↔ i.Covers (.before v) := by
  simp [contains, Covers, Ordering.isLE_iff_ne_gt]

theorem covers_inter {i j : Interval} {c : Cut} :
    (i.inter j).Covers c ↔ i.Covers c ∧ j.Covers c := by
  simp only [Covers, inter, Cut.isLE_max_left, Cut.lt_min]
  tauto

theorem not_covers_of_isEmpty {i : Interval} {c : Cut} (h : i.isEmpty = true) :
    ¬ i.Covers c := by
  rintro ⟨hlower, hupper⟩
  simp [isEmpty, Std.TransCmp.lt_of_isLE_of_lt hlower hupper] at h

theorem covers_join {i j : Interval} {c : Cut} (hlower : (compare i.lower j.lower).isLE)
    (htouch : ¬ compare i.upper j.lower = .lt) :
    (Interval.mk i.lower (i.upper.max j.upper)).Covers c ↔ i.Covers c ∨ j.Covers c := by
  simp only [Covers, Cut.lt_max]
  have hreach := Cut.isLE_of_not_lt htouch
  constructor
  · rintro ⟨hbegin, hend | hend⟩
    · exact .inl ⟨hbegin, hend⟩
    · by_cases hbefore : compare c i.upper = .lt
      · exact .inl ⟨hbegin, hbefore⟩
      · have hafter := Cut.isLE_of_not_lt hbefore
        exact .inr ⟨Std.TransCmp.isLE_trans hreach hafter, hend⟩
  · rintro (⟨hbegin, hend⟩ | ⟨hbegin, hend⟩)
    · exact ⟨hbegin, .inl hend⟩
    · exact ⟨Std.TransCmp.isLE_trans hlower hbegin, .inr hend⟩

end Interval

namespace RangeSet

/-- A cut lies in an interval of a set. -/
def Covers (s : RangeSet) (c : Cut) : Prop := ∃ i ∈ s.intervals, i.Covers c

theorem exists_mem_joinFrom {current : Interval} {l : List Interval} {c : Cut}
    (hsorted : (current :: l).Pairwise fun i j => (compare i.lower j.lower).isLE) :
    (∃ i ∈ joinFrom current l, i.Covers c) ↔ ∃ i ∈ current :: l, i.Covers c := by
  induction l generalizing current with
  | nil => rfl
  | cons next rest ih =>
      obtain ⟨hlower, hrest⟩ := List.pairwise_cons.mp hsorted
      rw [joinFrom]
      split
      · simp only [List.exists_mem_cons_iff, ih hrest]
      · rename_i htouch
        have hjoined : (Interval.mk current.lower (current.upper.max next.upper) ::
            rest).Pairwise fun i j => (compare i.lower j.lower).isLE :=
          List.pairwise_cons.mpr ⟨fun i hi => hlower i (List.mem_cons_of_mem _ hi),
            (List.pairwise_cons.mp hrest).2⟩
        rw [ih hjoined]
        simp only [List.exists_mem_cons_iff,
          Interval.covers_join (hlower next List.mem_cons_self) htouch, or_assoc]

theorem exists_mem_normalize {l : List Interval} {c : Cut} :
    (∃ i ∈ normalize l, i.Covers c) ↔ ∃ i ∈ l, i.Covers c := by
  have hfilter : (∃ i ∈ Sorting.sort compare (l.filter (!·.isEmpty)), i.Covers c) ↔
      ∃ i ∈ l, i.Covers c := by
    simp only [Sorting.mem_sort, List.mem_filter, Bool.not_eq_true']
    constructor
    · rintro ⟨i, ⟨hmem, -⟩, hc⟩
      exact ⟨i, hmem, hc⟩
    · rintro ⟨i, hmem, hc⟩
      refine ⟨i, ⟨hmem, ?_⟩, hc⟩
      cases h : i.isEmpty with
      | false => rfl
      | true => exact absurd hc (Interval.not_covers_of_isEmpty h)
  have hsorted := (@Sorting.sort_pairwise _ compare _ (l.filter (!·.isEmpty))).imp
    lower_le_of_compare_le
  rw [← hfilter, normalize]
  cases h : Sorting.sort compare (l.filter (!·.isEmpty)) with
  | nil => rfl
  | cons first rest =>
      rw [h] at hsorted
      exact exists_mem_joinFrom hsorted

theorem covers_ofIntervals {l : List Interval} {prerelease : Bool} {c : Cut} :
    (ofIntervals l prerelease).Covers c ↔ ∃ i ∈ l, i.Covers c :=
  exists_mem_normalize

theorem covers_inter {s t : RangeSet} {c : Cut} :
    (s.inter t).Covers c ↔ s.Covers c ∧ t.Covers c := by
  rw [inter, covers_ofIntervals]
  simp only [List.mem_flatMap, List.mem_map]
  constructor
  · rintro ⟨-, ⟨i, hi, j, hj, rfl⟩, hc⟩
    obtain ⟨hci, hcj⟩ := Interval.covers_inter.mp hc
    exact ⟨⟨i, hi, hci⟩, j, hj, hcj⟩
  · rintro ⟨⟨i, hi, hci⟩, j, hj, hcj⟩
    exact ⟨i.inter j, ⟨i, hi, j, hj, rfl⟩, Interval.covers_inter.mpr ⟨hci, hcj⟩⟩

theorem covers_union {s t : RangeSet} {c : Cut} :
    (s.union t).Covers c ↔ s.Covers c ∨ t.Covers c := by
  rw [union, covers_ofIntervals]
  simp only [Covers, List.mem_append, or_and_right, exists_or]

theorem covers_empty {c : Cut} : ¬ empty.Covers c := by
  rw [empty, covers_ofIntervals]
  simp

theorem covers_ofInterval {i : Interval} {c : Cut} : (ofInterval i).Covers c ↔ i.Covers c := by
  rw [ofInterval, covers_ofIntervals]
  simp

theorem contains_iff {s : RangeSet} {v : Semver} :
    s.contains v = true ↔
      (v.isPrerelease = false ∨ s.prerelease = true) ∧ s.Covers (.before v) := by
  simp [contains, Covers, Interval.contains_iff]

end RangeSet

end DepSolver
