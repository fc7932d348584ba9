import DepSolver.RangeSet

/-!
The order of versions tells all versions apart, also those that differ in their build metadata
alone. So does the order of the cuts between them.
-/

namespace DepSolver

namespace Semver

instance : Std.LawfulEqCmp comparePreField where
  eq_of_compare h := by
    rw [comparePreField, compareLex_eq_eq, compareLex_eq_eq] at h
    exact Std.LawfulEqCmp.eq_of_compare h.2.2

instance : Std.LawfulEqCmp compareBuildField where
  eq_of_compare h := by
    simp only [compareBuildField, compareLex_eq_eq] at h
    exact Std.LawfulEqCmp.eq_of_compare h.2.2.2.2

instance : Std.LawfulEqOrd Semver where
  eq_of_compare {v w} h := by
    change Semver.compare v w = .eq at h
    simp only [Semver.compare, compareLex_eq_eq, compareOn, Order.through,
      Std.LawfulEqCmp.compare_eq_iff_eq] at h
    obtain ⟨hmajor, hminor, hpatch, -, hpre, hbuild⟩ := h
    cases v
    cases w
    simp_all

end Semver

instance : Std.LawfulEqOrd Cut where
  eq_of_compare {a b} h := by
    change Cut.compare a b = .eq at h
    simp only [Cut.compare, compareLex_eq_eq, compareOn, Std.LawfulEqCmp.compare_eq_iff_eq] at h
    cases a <;> cases b <;> simp_all [Cut.key]

end DepSolver
