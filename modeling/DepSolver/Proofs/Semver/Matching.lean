import DepSolver.Constraint.Parser
import DepSolver.Proofs.Semver.Parser

/-!
Which versions meet a requirement by the rules of its comparators, number by number. For a release
without build metadata, each rule comes to comparisons of the version with those at the ends of an
interval, as long as no number is the largest one that there is.
-/

namespace DepSolver.Semver

/-- The order of prereleases. A release has none, and comes last. -/
def comparePre (l l' : List String) : Ordering :=
  (compare l.isEmpty l'.isEmpty).then (List.compareLex comparePreField l l')

namespace Comparator

/-- A version against the numbers that a comparator gives and, if it gives all three, against its
prerelease. -/
def compareGiven (c : Comparator) (v : Semver) : Ordering :=
  (compare v.major c.major).then <| c.minor.elim .eq fun minor =>
    (compare v.minor minor).then <| c.patch.elim .eq fun patch =>
      (compare v.patch patch).then (comparePre v.pre c.pre)

def admitsExact (c : Comparator) (v : Semver) : Bool :=
  v.major = c.major && c.minor.all (v.minor = ·) && c.patch.all (v.patch = ·) && v.pre = c.pre

/-- The given major and minor numbers, and a patch from the given one on. -/
def admitsTilde (c : Comparator) (v : Semver) : Bool :=
  v.major = c.major && c.minor.all (v.minor = ·) &&
    ((c.patch.elim .eq (compare v.patch ·)).then (comparePre v.pre c.pre)).isGE

/-- The first number that is not zero, and from there on no less than what is given. -/
def admitsCaret (c : Comparator) (v : Semver) : Bool :=
  v.major = c.major &&
    match c.minor, c.patch with
    | none, _ => true
    | some minor, none => if 0 < c.major then minor ≤ v.minor else v.minor = minor
    | some minor, some patch =>
        if 0 < c.major then
          ((compare v.minor minor).then
            ((compare v.patch patch).then (comparePre v.pre c.pre))).isGE
        else if 0 < minor then
          v.minor = minor && ((compare v.patch patch).then (comparePre v.pre c.pre)).isGE
        else v.minor = minor && v.patch = patch && (comparePre v.pre c.pre).isGE

def admits (c : Comparator) (v : Semver) : Bool :=
  match c.relation with
  | .exact | .wildcard => c.admitsExact v
  | .greater => c.compareGiven v == .gt
  | .greaterEq => c.admitsExact v || c.compareGiven v == .gt
  | .less => c.compareGiven v == .lt
  | .lessEq => c.admitsExact v || c.compareGiven v == .lt
  | .tilde => c.admitsTilde v
  | .caret => c.admitsCaret v

/-- The comparator names a prerelease of the same release. -/
def opens (c : Comparator) (v : Semver) : Bool :=
  c.major = v.major && c.minor = some v.minor && c.patch = some v.patch && !c.pre.isEmpty

end Comparator

/-- All comparators admit the version and, if it is a prerelease, one of them names a prerelease of
the same release. -/
def Requirement.admits (req : Requirement) (v : Semver) : Bool :=
  req.comparators.all (·.admits v) && (!v.isPrerelease || req.comparators.any (·.opens v))

variable {v w : Semver} {c : Comparator} {minor patch : UInt64}

/-! ### Releases -/

theorem compare_eq_comparePre (hv : v.build = []) (hw : w.build = []) :
    compare v w = (compare v.major w.major).then ((compare v.minor w.minor).then
      ((compare v.patch w.patch).then (comparePre v.pre w.pre))) := by
  rw [compare_eq, hv, hw, List.compareLex_nil_nil, Ordering.then_eq]
  rfl

/-- A release without build metadata. -/
structure IsPlainRelease (v : Semver) : Prop where
  pre : v.pre = []
  build : v.build = []

theorem isGE_comparePre_nil (l : List String) : (comparePre [] l).isGE = true := by
  cases l <;> rfl

theorem lt_add_one_iff {m n : UInt64} (h : n.toNat + 1 < UInt64.size) : m < n + 1 ↔ m ≤ n := by
  have hnext : (n + 1).toNat = n.toNat + 1 := by
    rw [UInt64.toNat_add]
    exact Nat.mod_eq_of_lt h
  rw [UInt64.lt_iff_toNat_lt, UInt64.le_iff_toNat_le, hnext, Nat.lt_succ_iff]

namespace IsPlainRelease

theorem compare_eq_lt_iff (h : v.IsPlainRelease) (hw : w.build = []) :
    compare v w = .lt ↔ v.major < w.major ∨ v.major = w.major ∧
      (v.minor < w.minor ∨ v.minor = w.minor ∧ v.patch < w.patch) := by
  have hpre : comparePre [] w.pre ≠ .lt :=
    Ordering.isGE_iff_ne_lt.mp (isGE_comparePre_nil w.pre)
  rw [compare_eq_comparePre h.build hw, h.pre]
  simp only [Ordering.then_eq_lt, Std.compare_eq_lt, Std.compare_eq_iff_eq, hpre, and_false,
    or_false]

theorem isGE_then_comparePre (h : v.IsPlainRelease) (o : Ordering) (l : List String) :
    (o.then (comparePre v.pre l)).isGE = o.isGE := by
  rw [h.pre]
  cases o with
  | lt => rfl
  | eq => exact isGE_comparePre_nil l
  | gt => rfl

theorem compare_nextMajor (h : v.IsPlainRelease) (major : UInt64)
    (hbound : major.toNat + 1 < UInt64.size) :
    compare v (release (major + 1) 0 0) = .lt ↔ v.major ≤ major := by
  rw [h.compare_eq_lt_iff rfl, ← lt_add_one_iff hbound]
  simp [release]

theorem compare_nextMinor (h : v.IsPlainRelease) (major minor : UInt64)
    (hbound : minor.toNat + 1 < UInt64.size) :
    compare v (release major (minor + 1) 0) = .lt ↔
      v.major < major ∨ v.major = major ∧ v.minor ≤ minor := by
  rw [h.compare_eq_lt_iff rfl, ← lt_add_one_iff hbound]
  simp [release]

private theorem compare_nextPatch (h : v.IsPlainRelease) (patch : UInt64)
    (hbound : patch.toNat + 1 < UInt64.size) :
    compare v (release 0 0 (patch + 1)) = .lt ↔
      v.major = 0 ∧ v.minor = 0 ∧ v.patch ≤ patch := by
  rw [h.compare_eq_lt_iff rfl, ← lt_add_one_iff hbound]
  simp [release]

end IsPlainRelease

namespace Comparator

/-- The number that the caret relation goes one beyond. -/
def caretNumber (c : Comparator) : UInt64 :=
  if c.major = 0 then
    c.minor.elim c.major fun minor => if minor = 0 then c.patch.getD minor else minor
  else c.major

/-- The end of the versions that the caret relation admits. -/
def caretEnd (c : Comparator) : Semver :=
  if c.major = 0 then
    c.minor.elim c.nextMajor fun minor =>
      if minor = 0 then c.patch.elim (c.nextMinor minor) fun patch => .release 0 0 (patch + 1)
      else c.nextMinor minor
  else c.nextMajor

/-- The number that the comparator's interval goes one beyond, if any. -/
def raised? (c : Comparator) : Option UInt64 :=
  match c.relation with
  | .exact | .wildcard | .greater | .lessEq =>
      if c.isComplete then none else some (c.minor.getD c.major)
  | .greaterEq | .less => none
  | .tilde => some (c.minor.getD c.major)
  | .caret => some c.caretNumber

/-- No end of the interval lies beyond the largest number. -/
def IsBounded (c : Comparator) : Prop := ∀ n ∈ c.raised?, n.toNat + 1 < UInt64.size

instance (c : Comparator) : Decidable c.IsBounded :=
  match h : c.raised? with
  | none => .isTrue (by simp [IsBounded, h])
  | some n => decidable_of_iff (n.toNat + 1 < UInt64.size) (by simp [IsBounded, h])

theorem compareGiven_patch (hv : v.build = []) (relation : Relation) (major minor patch : UInt64)
    (pre : List String) :
    compareGiven ⟨relation, major, some minor, some patch, pre⟩ v =
      compare v ⟨major, minor, patch, pre, []⟩ := by
  rw [compare_eq_comparePre hv rfl]
  rfl

theorem compare_base_eq_lt_iff (hc : c.IsWellFormed) (hv : v.IsPlainRelease) :
    compare v c.base = .lt ↔ c.compareGiven v = .lt := by
  cases hc with
  | major relation major =>
      rw [hv.compare_eq_lt_iff rfl]
      simp [base, compareGiven, Std.compare_eq_lt]
  | minor relation major minor =>
      rw [hv.compare_eq_lt_iff rfl]
      simp [base, compareGiven, Ordering.then_eq_lt, Std.compare_eq_lt]
  | patch relation major minor patch pre =>
      rw [compareGiven_patch hv.build]
      rfl

theorem compare_familyEnd_eq_lt_iff (hc : c.IsWellFormed) (hv : v.IsPlainRelease)
    (hpartial : c.isComplete = false) (hbound : (c.minor.getD c.major).toNat + 1 < UInt64.size) :
    compare v c.familyEnd = .lt ↔ c.compareGiven v ≠ .gt := by
  cases hc with
  | major relation major =>
      refine (hv.compare_nextMajor major hbound).trans ?_
      simp [compareGiven, Std.compare_eq_gt]
  | minor relation major minor =>
      have hlater : compareGiven ⟨relation, major, some minor, none, []⟩ v = .gt ↔
          major < v.major ∨ v.major = major ∧ minor < v.minor := by
        simp [compareGiven, Ordering.then_eq_gt, Std.compare_eq_gt]
      refine (hv.compare_nextMinor major minor hbound).trans ?_
      rw [ne_eq, hlater]
      grind
  | patch relation major minor patch pre => cases hpartial

theorem admitsExact_iff (hc : c.IsWellFormed) (hv : v.IsPlainRelease) :
    c.admitsExact v = true ↔ c.compareGiven v = .eq := by
  cases hc with
  | major => simp [admitsExact, compareGiven, hv.pre]
  | minor => simp [admitsExact, compareGiven, hv.pre]
  | patch relation major minor patch pre =>
      have hpre : comparePre [] pre = .eq ↔ [] = pre := by cases pre <;> simp [comparePre]
      simp [admitsExact, compareGiven, Ordering.then_eq_eq, hv.pre, hpre, and_assoc]

theorem admitsTilde_iff (hc : c.IsWellFormed) (hv : v.IsPlainRelease)
    (hbound : (c.minor.getD c.major).toNat + 1 < UInt64.size) :
    c.admitsTilde v = true ↔ ¬ compare v c.base = .lt ∧
      compare v (c.minor.elim c.nextMajor c.nextMinor) = .lt := by
  rw [admitsTilde, hv.isGE_then_comparePre, hv.compare_eq_lt_iff rfl]
  cases hc with
  | major relation major =>
      have hnext := hv.compare_nextMajor major hbound
      grind [base, nextMajor, Ordering.isGE_eq]
  | minor relation major minor =>
      have hnext := hv.compare_nextMinor major minor hbound
      grind [base, nextMinor, Ordering.isGE_eq]
  | patch relation major minor patch pre =>
      have hnext := hv.compare_nextMinor major minor hbound
      grind [base, nextMinor, Std.isGE_compare]

theorem interval_caret (hc : c.IsWellFormed) (h : c.relation = .caret) :
    c.interval = ⟨.before c.base, .before c.caretEnd⟩ := by
  rw [interval, h, caretEnd]
  cases hc with
  | major => grind
  | minor => grind
  | patch => grind

/-! The end is that of the first number that is not zero, or of the last one that is given. -/

private theorem compare_caretEnd_of_major (hv : v.IsPlainRelease)
    (hbound : c.caretNumber.toNat + 1 < UInt64.size) (h : c.major ≠ 0 ∨ c.minor = none) :
    compare v c.caretEnd = .lt ↔ v.major ≤ c.major := by
  have hend : c.caretEnd = release (c.major + 1) 0 0 := by
    rcases h with h | h <;> simp [caretEnd, nextMajor, h]
  have hnumber : c.caretNumber = c.major := by
    rcases h with h | h <;> simp [caretNumber, h]
  rw [hend, hv.compare_nextMajor c.major (hnumber ▸ hbound)]

private theorem compare_caretEnd_of_minor (hv : v.IsPlainRelease)
    (hbound : c.caretNumber.toNat + 1 < UInt64.size) (hmajor : c.major = 0)
    (hminor : c.minor = some minor) (h : minor ≠ 0 ∨ c.patch = none) :
    compare v c.caretEnd = .lt ↔ v.major = 0 ∧ v.minor ≤ minor := by
  have hend : c.caretEnd = release 0 (minor + 1) 0 := by
    rcases h with h | h <;> simp [caretEnd, nextMinor, hmajor, hminor, h]
  have hnumber : c.caretNumber = minor := by
    rcases h with h | h <;> simp [caretNumber, hmajor, hminor, h]
  rw [hend, hv.compare_nextMinor 0 minor (hnumber ▸ hbound)]
  simp

private theorem compare_caretEnd_of_patch (hv : v.IsPlainRelease)
    (hbound : c.caretNumber.toNat + 1 < UInt64.size) (hmajor : c.major = 0)
    (hminor : c.minor = some 0) (hpatch : c.patch = some patch) :
    compare v c.caretEnd = .lt ↔ v.major = 0 ∧ v.minor = 0 ∧ v.patch ≤ patch := by
  have hend : c.caretEnd = release 0 0 (patch + 1) := by
    simp [caretEnd, hmajor, hminor, hpatch]
  have hnumber : c.caretNumber = patch := by
    simp [caretNumber, hmajor, hminor, hpatch]
  rw [hend, hv.compare_nextPatch patch (hnumber ▸ hbound)]

theorem admitsCaret_iff (hc : c.IsWellFormed) (hv : v.IsPlainRelease)
    (hbound : c.caretNumber.toNat + 1 < UInt64.size) :
    c.admitsCaret v = true ↔ ¬ compare v c.base = .lt ∧ compare v c.caretEnd = .lt := by
  rw [admitsCaret, hv.compare_eq_lt_iff rfl]
  simp only [hv.isGE_then_comparePre, ← Ordering.then_assoc]
  have hpre : (comparePre v.pre c.pre).isGE = true := hv.isGE_then_comparePre .eq c.pre
  cases hc with
  | major relation major =>
      rw [compare_caretEnd_of_major hv hbound (.inr rfl)]
      simp only [base, Option.getD_none, Bool.and_true, decide_eq_true_eq]
      grind
  | minor relation major minor =>
      rcases eq_or_ne major 0 with rfl | hne
      · rw [compare_caretEnd_of_minor hv hbound rfl rfl (.inr rfl)]
        simp only [base, Option.getD_some, Option.getD_none, UInt64.lt_irrefl, if_false,
          Bool.and_eq_true, decide_eq_true_eq]
        grind
      · have hpos : 0 < major := UInt64.pos_iff_ne_zero.mpr hne
        rw [compare_caretEnd_of_major hv hbound (.inl hne)]
        simp only [base, Option.getD_some, Option.getD_none, hpos, if_true, Bool.and_eq_true,
          decide_eq_true_eq]
        grind
  | patch relation major minor patch pre =>
      rcases eq_or_ne major 0 with rfl | hne
      · rcases eq_or_ne minor 0 with rfl | hne
        · rw [compare_caretEnd_of_patch hv hbound rfl rfl rfl]
          simp only [base, Option.getD_some, UInt64.lt_irrefl, if_false, hpre, Bool.and_true,
            Bool.and_eq_true, decide_eq_true_eq]
          grind
        · have hpos : 0 < minor := UInt64.pos_iff_ne_zero.mpr hne
          rw [compare_caretEnd_of_minor hv hbound rfl rfl (.inl hne)]
          simp only [base, Option.getD_some, UInt64.lt_irrefl, if_false, hpos, if_true,
            Std.isGE_compare, Bool.and_eq_true, decide_eq_true_eq]
          grind
      · have hpos : 0 < major := UInt64.pos_iff_ne_zero.mpr hne
        rw [compare_caretEnd_of_major hv hbound (.inl hne)]
        simp only [base, Option.getD_some, hpos, if_true, Ordering.isGE_iff_ne_lt,
          Ordering.then_eq_lt, Std.compare_eq_lt, Std.compare_eq_iff_eq, Bool.and_eq_true,
          decide_eq_true_eq]
        grind

end Comparator

end DepSolver.Semver
