import DepSolver.Proofs.RangeSet
import DepSolver.Proofs.Semver

/-!
The canonical form of a range set is determined by the cuts that it covers: the first interval
begins at the first cut covered and ends at the first one after it that is not. So two sets are
equal as soon as they cover the same cuts and agree on prereleases.
-/

namespace DepSolver

variable {i j : Interval} {rest rest' l l' : List Interval} {c : Cut}

theorem Interval.covers_lower (h : compare i.lower i.upper = .lt) : i.Covers i.lower :=
  ⟨by simp, h⟩

namespace Canonical

theorem tail (h : Canonical (i :: rest)) : Canonical rest :=
  ⟨fun k hk => h.nonempty k (List.mem_cons_of_mem _ hk), (List.pairwise_cons.mp h.apart).2⟩

theorem covers_lower (h : Canonical (i :: rest)) : ∃ k ∈ i :: rest, k.Covers i.lower :=
  ⟨i, List.mem_cons_self, Interval.covers_lower (h.nonempty i List.mem_cons_self)⟩

theorem upper_lt (h : Canonical (i :: rest)) (hc : ∃ k ∈ rest, k.Covers c) :
    compare i.upper c = .lt := by
  obtain ⟨k, hk, hcovers⟩ := hc
  exact Std.TransCmp.lt_of_lt_of_isLE ((List.pairwise_cons.mp h.apart).1 k hk) hcovers.1

theorem lower_le (h : Canonical (i :: rest)) (hc : ∃ k ∈ i :: rest, k.Covers c) :
    (compare i.lower c).isLE := by
  rcases (List.exists_mem_cons_iff ..).mp hc with hfirst | hlater
  · exact hfirst.1
  · have hlt := Std.TransCmp.lt_trans (h.nonempty i List.mem_cons_self) (h.upper_lt hlater)
    simp [hlt]

private theorem not_covers_upper (h : Canonical (i :: rest)) : ¬ ∃ k ∈ i :: rest, k.Covers i.upper
    := by
  intro hc
  rcases (List.exists_mem_cons_iff ..).mp hc with hfirst | hlater
  · simpa using hfirst.2
  · simpa using h.upper_lt hlater

theorem exists_mem_tail_iff (h : Canonical (i :: rest)) :
    (∃ k ∈ rest, k.Covers c) ↔ (∃ k ∈ i :: rest, k.Covers c) ∧ ¬ i.Covers c := by
  constructor
  · intro hlater
    refine ⟨(List.exists_mem_cons_iff ..).mpr (.inr hlater), ?_⟩
    rintro ⟨-, hbefore⟩
    exact Std.OrientedCmp.not_lt_of_lt hbefore (h.upper_lt hlater)
  · rintro ⟨hc, hnot⟩
    exact ((List.exists_mem_cons_iff ..).mp hc).resolve_left hnot

theorem upper_le (h : Canonical (i :: rest)) (hlower : j.lower = i.lower)
    (hc : ∀ c, (∃ k ∈ j :: rest', k.Covers c) → ∃ k ∈ i :: rest, k.Covers c) :
    (compare j.upper i.upper).isLE := by
  by_contra hgt
  have hlt : compare i.upper j.upper = .lt := by
    by_contra hnot
    exact hgt (Cut.isLE_of_not_lt hnot)
  apply h.not_covers_upper
  refine hc i.upper ⟨j, List.mem_cons_self, ?_, hlt⟩
  rw [hlower]
  simp [h.nonempty i List.mem_cons_self]

theorem head_eq (h : Canonical (i :: rest)) (h' : Canonical (j :: rest'))
    (hc : ∀ c, (∃ k ∈ i :: rest, k.Covers c) ↔ ∃ k ∈ j :: rest', k.Covers c) : i = j := by
  have hlower : i.lower = j.lower := Std.LawfulEqCmp.eq_of_compare
    (Std.OrientedCmp.isLE_antisymm (h.lower_le ((hc j.lower).mpr h'.covers_lower))
      (h'.lower_le ((hc i.lower).mp h.covers_lower)))
  have hupper : i.upper = j.upper := Std.LawfulEqCmp.eq_of_compare
    (Std.OrientedCmp.isLE_antisymm (h'.upper_le hlower fun c => (hc c).mp)
      (h.upper_le hlower.symm fun c => (hc c).mpr))
  cases i
  cases j
  simp_all

/-- Canonical unions that cover the same cuts are equal. -/
theorem eq_of_covers_iff (h : Canonical l) (h' : Canonical l')
    (hc : ∀ c, (∃ k ∈ l, k.Covers c) ↔ ∃ k ∈ l', k.Covers c) : l = l' := by
  induction l generalizing l' with
  | nil =>
      cases l' with
      | nil => rfl
      | cons j rest' => simpa using (hc j.lower).mpr h'.covers_lower
  | cons i rest ih =>
      cases l' with
      | nil => simpa using (hc i.lower).mp h.covers_lower
      | cons j rest' =>
          obtain rfl := h.head_eq h' hc
          have hrest : rest = rest' := ih h.tail h'.tail fun c => by
            rw [h.exists_mem_tail_iff, h'.exists_mem_tail_iff, hc]
          rw [hrest]

end Canonical

namespace RangeSet

variable {s t u : RangeSet}

theorem ext (hcovers : ∀ c, s.Covers c ↔ t.Covers c) (hprerelease : s.prerelease = t.prerelease) :
    s = t := by
  have hintervals := s.canonical.eq_of_covers_iff t.canonical hcovers
  cases s
  cases t
  simp_all

theorem isEmpty_iff : s.isEmpty = true ↔ ∀ c, ¬ s.Covers c := by
  rw [isEmpty, List.isEmpty_iff]
  constructor
  · intro hnil c
    simp [Covers, hnil]
  · intro hc
    by_contra hne
    obtain ⟨i, hi⟩ := List.exists_mem_of_ne_nil _ hne
    exact hc i.lower ⟨i, hi, Interval.covers_lower (s.canonical.nonempty i hi)⟩

end RangeSet

end DepSolver
