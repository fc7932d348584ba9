import DepSolver.Proofs.Semver
import DepSolver.Semver.Requirement
import Mathlib.Data.List.Basic
import Mathlib.Tactic.IntervalCases

/-!
The first version from a place in the order on. There is a first version and a first release, a
prerelease is followed by its release before any other one, and next to a version comes the one with
one more build field.
-/

namespace DepSolver.Semver

/-- A field that can stand in a part of a version. -/
def IsField (part : Part) (field : String) : Prop :=
  field.toList.all isFieldChar = true ∧ fieldError? part field.toList = none

instance (part : Part) (field : String) : Decidable (IsField part field) :=
  inferInstanceAs (Decidable (_ ∧ _))

/-- A version that can be written. -/
def IsValid (v : Semver) : Prop :=
  (∀ field ∈ v.pre, IsField .pre field) ∧ ∀ field ∈ v.build, IsField .build field

instance (v : Semver) : Decidable v.IsValid := inferInstanceAs (Decidable (_ ∧ _))

theorem isValid_release (major minor patch : UInt64) : (release major minor patch).IsValid := by
  simp [IsValid, release]

theorem IsField.ne_empty {part : Part} {field : String} (h : IsField part field) : field ≠ "" := by
  rintro rfl
  cases h.2

/-! ### Fields -/

private theorem isLE_compare_zero {c : Char} (h : c.isDigit = true) :
    (compare "0" (String.ofList [c])).isLE = true := by
  simp only [Char.isDigit, Bool.and_eq_true, decide_eq_true_eq] at h
  have hlower : 48 ≤ c.toNat := h.1
  have hupper : c.toNat ≤ 57 := h.2
  rw [← Char.ofNat_toNat c]
  generalize c.toNat = n at hlower hupper
  interval_cases n <;> decide

private theorem exists_digit {field : String} (hnumeric : isNumeric field = true)
    (hlength : field.length = 1) : ∃ c, field = .ofList [c] ∧ c.isDigit = true := by
  rw [← String.length_toList, List.length_eq_one_iff] at hlength
  obtain ⟨c, hc⟩ := hlength
  rw [isNumeric, hc] at hnumeric
  exact ⟨c, by rw [← hc, String.ofList_toList], by simpa using hnumeric⟩

theorem isLE_compare_digits {field : String} (hnumeric : isNumeric field = true)
    (hne : field ≠ "") :
    ((compare (digitCount "0") (digitCount field)).then (compare "0" field)).isLE = true := by
  have hpos : 1 ≤ field.length :=
    Nat.one_le_iff_ne_zero.mpr fun hzero => hne (String.length_eq_zero_iff.mp hzero)
  have hzero : digitCount "0" = 1 := rfl
  rw [hzero, digitCount, if_pos hnumeric, Ordering.isLE_then_iff_and, Nat.isLE_compare,
    Nat.compare_eq_lt]
  refine ⟨hpos, ?_⟩
  rcases Nat.lt_or_eq_of_le hpos with hlt | heq
  · exact .inl hlt
  · obtain ⟨c, rfl, hc⟩ := exists_digit hnumeric heq.symm
    exact .inr (isLE_compare_zero hc)

private theorem isLE_comparePreField_zero {field : String} (hne : field ≠ "") :
    (comparePreField "0" field).isLE = true := by
  change ((compare false (!isNumeric field)).then
    ((compare (digitCount "0") (digitCount field)).then (compare "0" field))).isLE = true
  cases hnumeric : isNumeric field with
  | false => rfl
  | true => exact isLE_compare_digits hnumeric hne

private theorem isLE_compareBuildField_zero {field : String} (hne : field ≠ "") :
    (compareBuildField "0" field).isLE = true := by
  have hzero : significant "0" = "" := by decide
  change ((compare false (!isNumeric field)).then
    ((compare (significant "0").length (significant field).length).then
      ((compare (significant "0") (significant field)).then
        ((compare (digitCount "0") (digitCount field)).then (compare "0" field))))).isLE = true
  cases hnumeric : isNumeric field with
  | false => rfl
  | true =>
      rw [hzero]
      rcases Nat.eq_zero_or_pos (significant field).length with hlength | hpos
      · rw [String.length_eq_zero_iff.mp hlength]
        exact isLE_compare_digits hnumeric hne
      · have hlt : compare "".length (significant field).length = .lt :=
          Nat.compare_eq_lt.mpr hpos
        rw [hlt]
        rfl

/-! ### Versions -/

theorem compare_eq (v w : Semver) :
    compare v w = (compare v.major w.major).then ((compare v.minor w.minor).then
      ((compare v.patch w.patch).then ((compare v.pre.isEmpty w.pre.isEmpty).then
        ((List.compareLex comparePreField v.pre w.pre).then
          (List.compareLex compareBuildField v.build w.build))))) := rfl

theorem isLE_compareLex_nil {α : Type} {cmp : α → α → Ordering} (l : List α) :
    (List.compareLex cmp [] l).isLE = true := by
  cases l with
  | nil => rw [List.compareLex_nil_nil]; rfl
  | cons a rest => rw [List.compareLex_nil_cons]; rfl

theorem isLE_then {a b : Ordering} (ha : a.isLE = true) (hb : b.isLE = true) :
    (a.then b).isLE = true :=
  Ordering.isLE_then_iff_and.mpr ⟨ha, .inr hb⟩

/-- The first version, or the first release. -/
def first (prerelease : Bool) : Semver := ⟨0, 0, 0, if prerelease then ["0"] else [], []⟩

theorem isValid_first (prerelease : Bool) : (first prerelease).IsValid := by
  cases prerelease <;> decide

theorem isLE_first {v : Semver} {prerelease : Bool} (hv : v.IsValid)
    (h : v.isPrerelease = false ∨ prerelease = true) :
    (compare (first prerelease) v).isLE = true := by
  have hzero : ∀ n : UInt64, (compare 0 n).isLE = true := fun n =>
    Std.isLE_compare.mpr UInt64.zero_le
  rw [compare_eq]
  refine isLE_then (hzero _) (isLE_then (hzero _) (isLE_then (hzero _) ?_))
  cases hpre : v.pre with
  | nil =>
      cases prerelease with
      | false => exact isLE_then rfl (isLE_then rfl (isLE_compareLex_nil _))
      | true => rfl
  | cons field rest =>
      have hpos : prerelease = true := h.resolve_left (by simp [isPrerelease, hpre])
      have hfield := hv.1 field (by simp [hpre])
      subst hpos
      have hfields : (List.compareLex comparePreField ["0"] (field :: rest)).isLE = true := by
        rw [List.compareLex_cons_cons]
        exact isLE_then (isLE_comparePreField_zero hfield.ne_empty) (isLE_compareLex_nil _)
      exact isLE_then rfl (isLE_then hfields (isLE_compareLex_nil _))

/-- The release that a prerelease comes before. -/
def released (v : Semver) : Semver := release v.major v.minor v.patch

theorem compare_released {v w : Semver} (hv : v.isPrerelease = true) (hw : w.isPrerelease = false) :
    (compare v w = .lt ↔ (compare v.released w).isLE = true) ∧
      ((compare v w).isLE = true ↔ (compare v.released w).isLE = true) := by
  have hwpre : w.pre = [] := by simpa [isPrerelease] using hw
  have hvpre : v.pre.isEmpty = false := by simpa [isPrerelease] using hv
  have hlast : (List.compareLex compareBuildField [] w.build).isLE = true :=
    isLE_compareLex_nil _
  have hbefore : compare false true = .lt := rfl
  rw [compare_eq, compare_eq, hwpre, hvpre]
  simp [released, release, hbefore, hlast, List.compareLex_nil_nil, Ordering.then_eq_lt,
    Ordering.isLE_then_iff_or]

/-- The next version: the same with one more build field. -/
def successor (v : Semver) : Semver := { v with build := v.build ++ ["0"] }

theorem IsValid.successor {v : Semver} (h : v.IsValid) : v.successor.IsValid := by
  refine ⟨h.1, List.forall_mem_append.mpr ⟨h.2, ?_⟩⟩
  decide

private theorem compareLex_concat_zero {l l' : List String} (h : ∀ field ∈ l', field ≠ "") :
    List.compareLex compareBuildField l l' = .lt ↔
      (List.compareLex compareBuildField (l ++ ["0"]) l').isLE = true := by
  induction l generalizing l' with
  | nil =>
      cases l' with
      | nil => simp [List.compareLex_nil_nil, List.compareLex_cons_nil]
      | cons field rest =>
          have hrest : (List.compareLex compareBuildField [] rest).isLE = true :=
            isLE_compareLex_nil rest
          have hle := isLE_then (isLE_compareBuildField_zero (h field List.mem_cons_self)) hrest
          simp [List.compareLex_nil_cons, List.compareLex_cons_cons, hle]
  | cons field rest ih =>
      cases l' with
      | nil => simp [List.compareLex_cons_nil]
      | cons field' rest' =>
          have hrest := ih fun f hf => h f (List.mem_cons_of_mem _ hf)
          rw [List.cons_append, List.compareLex_cons_cons, List.compareLex_cons_cons]
          cases compareBuildField field field' <;> simp [hrest]

theorem compare_successor {v w : Semver} (hw : w.IsValid) :
    compare v w = .lt ↔ (compare v.successor w).isLE = true := by
  have hbuild := compareLex_concat_zero (l := v.build) fun field hfield =>
    (hw.2 field hfield).ne_empty
  rw [compare_eq, compare_eq]
  simp only [successor, Ordering.then_eq_lt, Ordering.isLE_then_iff_or, hbuild]

end DepSolver.Semver
