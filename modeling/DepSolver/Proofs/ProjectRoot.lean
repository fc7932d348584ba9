import DepSolver.ProjectRoot
import DepSolver.Proofs.Text

/-!
Import paths below roots. The roots above one path lie below each other, so the longest of them is
the innermost. A path has a relative path just if it is within the root, unless the root is empty;
and a relative path stands for the path that it was taken from, unless it stands for the root.
-/

namespace DepSolver

namespace ImportPath

variable {path a b : String}

theorem isWithin_iff : isWithin path a = true ↔
    ∃ rest, path.toList = a.toList ++ rest ∧
      (a = "" ∨ rest = [] ∨ ∃ below, rest = '/' :: below) := by
  rw [isWithin]
  split
  · rename_i hnone
    simp only [Bool.false_eq_true, false_iff]
    rintro ⟨rest, hrest, -⟩
    rw [Text.dropStart?_eq_some_iff.mpr hrest] at hnone
    cases hnone
  · rename_i hsome
    have hpath := Text.dropStart?_eq_some_iff.mp hsome
    simp only [true_iff]
    exact ⟨[], hpath, .inr (.inl rfl)⟩
  · rename_i c below hsome
    have hpath := Text.dropStart?_eq_some_iff.mp hsome
    constructor
    · intro h
      refine ⟨c :: below, hpath, ?_⟩
      rcases Bool.or_eq_true_iff.mp h with hslash | hempty
      · exact .inr (.inr ⟨below, by simpa using hslash⟩)
      · exact .inl (by simpa using hempty)
    · rintro ⟨rest, hrest, hcases⟩
      obtain rfl : c :: below = rest := List.append_cancel_left (hpath.symm.trans hrest)
      rcases hcases with rfl | hnil | ⟨below', hslash⟩
      · simp
      · cases hnil
      · simp [(List.cons.inj hslash).1]

theorem length_le_of_isWithin (h : isWithin path a = true) : a.length ≤ path.length := by
  obtain ⟨rest, hpath, -⟩ := isWithin_iff.mp h
  rw [← String.length_toList, ← String.length_toList, hpath, List.length_append]
  exact Nat.le_add_right _ _

theorem eq_of_isWithin_of_length_le (h : isWithin path a = true) (hle : path.length ≤ a.length) :
    path = a := by
  obtain ⟨rest, hpath, -⟩ := isWithin_iff.mp h
  rw [← String.length_toList, ← String.length_toList, hpath, List.length_append] at hle
  obtain rfl : rest = [] := List.eq_nil_of_length_eq_zero (by omega)
  rw [List.append_nil] at hpath
  exact String.toList_inj.mp hpath

theorem isWithin_of_append {more rest : List Char} (h : isWithin path a = true)
    (hb : b.toList = a.toList ++ more) (hpath : path.toList = b.toList ++ rest) :
    isWithin b a = true := by
  obtain ⟨all, hall, hcases⟩ := isWithin_iff.mp h
  obtain rfl : more ++ rest = all := by
    apply @List.append_cancel_left _ a.toList
    rw [← hall, hpath, hb, List.append_assoc]
  refine isWithin_iff.mpr ⟨more, hb, ?_⟩
  cases more with
  | nil => exact .inr (.inl rfl)
  | cons c more =>
      rcases hcases with hempty | hnil | ⟨below, hslash⟩
      · exact .inl hempty
      · cases hnil
      · exact .inr (.inr ⟨more, by rw [(List.cons.inj hslash).1]⟩)

theorem isWithin_total (ha : isWithin path a = true) (hb : isWithin path b = true) :
    isWithin a b = true ∨ isWithin b a = true := by
  obtain ⟨u, hu, -⟩ := isWithin_iff.mp ha
  obtain ⟨v, hv, -⟩ := isWithin_iff.mp hb
  rcases List.append_eq_append_iff.mp (hu.symm.trans hv) with ⟨w, hw, -⟩ | ⟨w, hw, -⟩
  · exact .inr (isWithin_of_append ha hw hv)
  · exact .inl (isWithin_of_append hb hw hu)

end ImportPath

namespace ProjectRoot

variable {root : ProjectRoot} {path relative other : String}

theorem toList_join (h : relative ≠ "." ∧ relative ≠ "") :
    (root.join relative).toList = root.path.toList ++ '/' :: relative.toList := by
  rw [join, if_neg (by simpa using h)]
  simp

theorem contains_join (root : ProjectRoot) (relative : String) :
    root.contains (root.join relative) = true := by
  rw [contains, ImportPath.isWithin_iff]
  by_cases h : relative ≠ "." ∧ relative ≠ ""
  · exact ⟨_, toList_join h, .inr (.inr ⟨_, rfl⟩)⟩
  · rw [join, if_pos (by simpa [imp_iff_not_or, or_comm] using h)]
    exact ⟨[], by simp, .inr (.inl rfl)⟩

theorem relative_eq_some_iff : root.relative path = some relative ↔
    path = root.path ∧ relative = "." ∨ path.toList = root.path.toList ++ '/' :: relative.toList := by
  rw [ProjectRoot.relative]
  by_cases heq : path = root.path
  · rw [if_pos heq, Option.some.injEq, heq]
    constructor
    · rintro rfl
      exact .inl ⟨rfl, rfl⟩
    · rintro (⟨-, rfl⟩ | hpath)
      · rfl
      · exact absurd (List.append_right_eq_self.mp hpath.symm) (List.cons_ne_nil _ _)
  · rw [if_neg heq]
    simp only [heq, false_and, false_or]
    constructor
    · intro h
      split at h
      · rename_i rest hrest
        cases h
        rw [Text.dropStart?_eq_some_iff.mp hrest, String.toList_ofList]
      · cases h
    · intro h
      rw [Text.dropStart?_eq_some_iff.mpr h]
      simp

/-- A path whose relative path stands for the root: the root with a slash, or with a slash and a
dot. -/
def IsMistaken (root : ProjectRoot) (path : String) : Prop :=
  path = root.path ++ "/" ∨ path = root.path ++ "/."

instance (root : ProjectRoot) (path : String) : Decidable (root.IsMistaken path) :=
  inferInstanceAs (Decidable (_ ∨ _))

theorem join_relative (h : root.relative path = some relative) :
    root.join relative = if root.IsMistaken path then root.path else path := by
  rcases relative_eq_some_iff.mp h with ⟨rfl, rfl⟩ | hpath
  · rw [join, if_pos (by simp), ite_self]
  · have hmistaken : root.IsMistaken path ↔ relative = "" ∨ relative = "." := by
      rw [IsMistaken, ← String.toList_inj, ← String.toList_inj, hpath, ← @String.toList_inj relative,
        ← @String.toList_inj relative]
      simp
    by_cases hplain : relative ≠ "." ∧ relative ≠ ""
    · rw [if_neg (by simpa [hmistaken, and_comm] using hplain)]
      exact String.toList_inj.mp ((toList_join hplain).trans hpath.symm)
    · have hroot : relative = "" ∨ relative = "." := by tauto
      rw [if_pos (hmistaken.mpr hroot), join, if_pos (by simpa [or_comm] using hroot)]

theorem join_eq_of_relative (h : root.relative path = some relative)
    (hne : root.join relative ≠ root.path) : root.join relative = path := by
  rw [join_relative h] at hne ⊢
  by_cases hmistaken : root.IsMistaken path
  · rw [if_pos hmistaken] at hne
    exact absurd rfl hne
  · rw [if_neg hmistaken]

theorem exists_relative_of_contains (h : root.contains path = true) (hne : root.path ≠ "") :
    ∃ relative, root.relative path = some relative := by
  obtain ⟨more, hpath, hempty | rfl | ⟨rest, rfl⟩⟩ := ImportPath.isWithin_iff.mp h
  · exact absurd hempty hne
  · rw [List.append_nil] at hpath
    exact ⟨".", relative_eq_some_iff.mpr (.inl ⟨String.toList_inj.mp hpath, rfl⟩)⟩
  · exact ⟨.ofList rest, relative_eq_some_iff.mpr (.inr (by rw [hpath, String.toList_ofList]))⟩

/-- A path without a relative path, though everything is within the empty root: it is not empty and
does not start with a slash. -/
def IsUnrelated (root : ProjectRoot) (path : String) : Prop :=
  root.path = "" ∧ path ≠ "" ∧ path.toList.head? ≠ some '/'

instance (root : ProjectRoot) (path : String) : Decidable (root.IsUnrelated path) :=
  inferInstanceAs (Decidable (_ ∧ _))

theorem exists_relative_iff : (∃ relative, root.relative path = some relative) ↔
    root.contains path = true ∧ ¬ root.IsUnrelated path := by
  constructor
  · rintro ⟨relative, h⟩
    rcases relative_eq_some_iff.mp h with ⟨rfl, -⟩ | hpath
    · exact ⟨ImportPath.isWithin_iff.mpr ⟨[], by simp, .inr (.inl rfl)⟩, fun h => h.2.1 h.1⟩
    · refine ⟨ImportPath.isWithin_iff.mpr ⟨_, hpath, .inr (.inr ⟨_, rfl⟩)⟩, fun h => h.2.2 ?_⟩
      rw [hpath, h.1]
      rfl
  · rintro ⟨hcontains, hrelated⟩
    by_cases hempty : root.path = ""
    · cases hpath : path.toList with
      | nil => exact ⟨".", relative_eq_some_iff.mpr (.inl ⟨by simp_all, rfl⟩)⟩
      | cons c rest =>
          have hslash : c = '/' := by
            by_contra hne
            refine hrelated ⟨hempty, ?_, by simpa [hpath] using hne⟩
            rintro rfl
            simp at hpath
          exact ⟨.ofList rest, relative_eq_some_iff.mpr (.inr (by simp [hpath, hempty, hslash]))⟩
    · exact exists_relative_of_contains hcontains hempty

theorem IsMistaken.exists_relative (h : root.IsMistaken path) :
    ∃ relative, root.relative path = some relative := by
  rcases h with rfl | rfl
  · exact ⟨"", relative_eq_some_iff.mpr (.inr (by simp))⟩
  · exact ⟨".", relative_eq_some_iff.mpr (.inr (by simp))⟩

theorem join_inj (hrelative : relative ≠ "") (hother : other ≠ "")
    (heq : root.join relative = root.join other) : relative = other := by
  have hlists := congrArg String.toList heq
  by_cases hdot : relative = "."
  · by_cases hdot' : other = "."
    · rw [hdot, hdot']
    · rw [toList_join ⟨hdot', hother⟩, join, if_pos (by simp [hdot])] at hlists
      simp at hlists
  · by_cases hdot' : other = "."
    · rw [toList_join ⟨hdot, hrelative⟩, join, if_pos (by simp [hdot'])] at hlists
      simp at hlists
    · rw [toList_join ⟨hdot, hrelative⟩, toList_join ⟨hdot', hother⟩] at hlists
      exact String.toList_inj.mp (List.cons.inj (List.append_cancel_left hlists)).2

end ProjectRoot

end DepSolver
