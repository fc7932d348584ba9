import DepSolver.Proofs.Semver
import DepSolver.Version

/-!
The order of upgrades. It compares versions by one key after another, so it is total and
transitive, and it tells all versions apart.
-/

namespace DepSolver

instance : Std.LawfulEqOrd Revision where
  eq_of_compare {r s} h := by
    have hcompare : compare r.text s.text = .eq := h
    have htext := Std.LawfulEqCmp.eq_of_compare hcompare
    cases r
    cases s
    simpa using htext

namespace Version

def semver? : Version → Option Semver
  | semver v _ _ => some v
  | _ => none

/-- The text of a tag or a branch. A bare revision has no name. -/
def name : Version → String
  | semver _ name _ | tag name _ | branch name _ => name
  | revision _ => ""

theorem rank_semver_le (v : Semver) (name : String) (r : Option Revision) :
    (semver v name r).rank ≤ 1 := by
  rw [rank]
  split <;> decide

theorem compareNames_eq {v w : Version} (h : v.rank = w.rank) :
    compareNames v w = (compare w.semver? v.semver?).then (compare v.name w.name) := by
  cases v with
  | semver x t r =>
      cases w with
      | semver => rfl
      | _ => exact absurd (h ▸ rank_semver_le x t r) (by simp [rank])
  | _ =>
      cases w with
      | semver y u r => exact absurd (h ▸ rank_semver_le y u r) (by simp [rank])
      | _ => first | rfl | cases h

theorem upgradeOrder_eq : upgradeOrder =
    compareLex (compareOn rank) (compareLex (fun v w => compare w.semver? v.semver?)
      (compareLex (compareOn name) (compareOn underlying))) := by
  funext v w
  change (compare v.rank w.rank).then _ = (compare v.rank w.rank).then _
  by_cases hrank : v.rank = w.rank
  · rw [compareNames_eq hrank, Ordering.then_assoc]
    rfl
  · have hne : compare v.rank w.rank ≠ .eq := fun h => hrank (Std.LawfulEqCmp.eq_of_compare h)
    cases h : compare v.rank w.rank with
    | eq => exact absurd h hne
    | lt => rfl
    | gt => rfl

/-- The other way around, a comparison through a key is as lawful. -/
instance : Std.TransCmp fun v w : Version => compare w.semver? v.semver? :=
  @Std.TransCmp.opposite _ (compareOn semver?) _

instance : Std.TransCmp upgradeOrder := by
  rw [upgradeOrder_eq]
  infer_instance

instance : Std.LawfulEqCmp upgradeOrder where
  eq_of_compare {v w} h := by
    simp only [upgradeOrder_eq, compareLex_eq_eq, compareOn,
      Std.LawfulEqCmp.compare_eq_iff_eq] at h
    obtain ⟨hrank, hsemver, hname, hunderlying⟩ := h
    cases v <;> cases w <;> simp_all [rank, semver?, name, underlying]

end Version

end DepSolver
