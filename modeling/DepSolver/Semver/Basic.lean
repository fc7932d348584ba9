import DepSolver.Order
import DepSolver.Text.Basic

/-!
Semantic versions and their order: by numbers, a prerelease before its release, and last by build
metadata.
-/

namespace DepSolver

/-- A semantic version: three numbers, the fields of its prerelease (none for a release) and the
fields of its build metadata. -/
structure Semver where
  major : UInt64
  minor : UInt64
  patch : UInt64
  pre : List String
  build : List String
deriving DecidableEq, Inhabited

namespace Semver

/-- The release with three numbers. -/
def release (major minor patch : UInt64) : Semver := ⟨major, minor, patch, [], []⟩

def isPrerelease (v : Semver) : Bool := !v.pre.isEmpty

/-- Whether a field has only digits. -/
def isNumeric (field : String) : Bool := field.toList.all Char.isDigit

/-- The number of digits of a numeric field, and zero of any other. -/
def digitCount (field : String) : Nat := if isNumeric field then field.length else 0

/-- A numeric field without its leading zeros, and nothing of any other. -/
def significant (field : String) : String :=
  if isNumeric field then .ofList (field.toList.dropWhile (· = '0')) else ""

/-- The order of prerelease fields: numeric ones first, by value, then the others as texts. A
numeric field has no leading zero, so its length and then its text give its value. -/
def comparePreField : String → String → Ordering :=
  compareLex (compareOn (!isNumeric ·)) (compareLex (compareOn digitCount) compare)

/-- The order of build fields: numeric ones first, by value and then by their leading zeros, then
the others as texts. -/
def compareBuildField : String → String → Ordering :=
  compareLex (compareOn (!isNumeric ·)) <| compareLex (compareOn (significant · |>.length)) <|
    compareLex (compareOn significant) <| compareLex (compareOn digitCount) compare

instance : Std.TransCmp comparePreField := by
  unfold comparePreField
  infer_instance

instance : Std.TransCmp compareBuildField := by
  unfold compareBuildField
  infer_instance

/-- The order of versions: by numbers, then a prerelease before the release, then by the fields of
the prerelease, then by those of the build metadata. -/
protected def compare : Semver → Semver → Ordering :=
  compareLex (compareOn major) <| compareLex (compareOn minor) <| compareLex (compareOn patch) <|
    compareLex (compareOn (·.pre.isEmpty)) <|
    compareLex (Order.through pre (List.compareLex comparePreField))
      (Order.through build (List.compareLex compareBuildField))

instance : Ord Semver := ⟨Semver.compare⟩

instance : Std.TransOrd Semver := by
  show Std.TransCmp Semver.compare
  unfold Semver.compare
  infer_instance

/-- The text of a version. -/
protected def toString (v : Semver) : String :=
  let numbers := s!"{v.major}.{v.minor}.{v.patch}"
  let pre := if v.pre.isEmpty then "" else "-" ++ ".".intercalate v.pre
  let build := if v.build.isEmpty then "" else "+" ++ ".".intercalate v.build
  numbers ++ pre ++ build

instance : ToString Semver := ⟨Semver.toString⟩

end Semver

end DepSolver
