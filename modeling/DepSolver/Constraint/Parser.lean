import DepSolver.Constraint
import DepSolver.Semver.Requirement

/-!
Reading constraints: version requirements between `||`, where `==` stands for `=`.
-/

namespace DepSolver

/-- Why a text is no constraint. -/
structure ConstraintError where
  input : String
  cause : Semver.ParseError
deriving DecidableEq

def ConstraintError.message (e : ConstraintError) : String :=
  s!"invalid version constraint `{e.input}`: {e.cause.message}"

namespace Semver.Comparator

/-- The version that a comparator names, with zeros for the numbers left open. -/
def base (c : Comparator) : Semver :=
  ⟨c.major, c.minor.getD 0, c.patch.getD 0, c.pre, []⟩

/-- The first release of the next major version. -/
def nextMajor (c : Comparator) : Semver := .release (c.major + 1) 0 0

/-- The first release of the next minor version. -/
def nextMinor (c : Comparator) (minor : UInt64) : Semver := .release c.major (minor + 1) 0

/-- The end of the family of versions that a partial version names, and the version itself for a
complete one. -/
def familyEnd (c : Comparator) : Semver :=
  match c.minor, c.patch with
  | none, _ => c.nextMajor
  | some minor, none => c.nextMinor minor
  | some _, some _ => c.base

/-- Whether all three numbers are given. -/
def isComplete (c : Comparator) : Bool := c.minor.isSome && c.patch.isSome

/-- The versions that a comparator admits, prereleases taken by their order alone. -/
def interval (c : Comparator) : Interval :=
  match c.relation with
  | .exact | .wildcard =>
      ⟨.before c.base, if c.isComplete then .after c.base else .before c.familyEnd⟩
  | .greater => ⟨if c.isComplete then .after c.base else .before c.familyEnd, .top⟩
  | .greaterEq => ⟨.before c.base, .top⟩
  | .less => ⟨.bottom, .before c.base⟩
  | .lessEq => ⟨.bottom, if c.isComplete then .after c.base else .before c.familyEnd⟩
  | .tilde =>
      ⟨.before c.base, .before (c.minor.elim c.nextMajor c.nextMinor)⟩
  | .caret =>
      let next :=
        match c.major, c.minor, c.patch with
        | 0, some 0, some patch => .release 0 0 (patch + 1)
        | 0, some minor, _ => c.nextMinor minor
        | _, _, _ => c.nextMajor
      ⟨.before c.base, .before next⟩

end Semver.Comparator

/-- The versions that all comparators of a requirement admit. One comparator that names a prerelease
opens the whole requirement to prereleases. -/
def Semver.Requirement.ranges (req : Semver.Requirement) : RangeSet :=
  let intervals := req.comparators.map (·.interval)
  let both := intervals.foldl (fun set i => set.inter (.ofInterval i)) RangeSet.full
  { both with prerelease := intervals.any (·.namesPrerelease) }

namespace Constraint

/-- Write a single `=` for each `==`. -/
def singleEquals : List Char → List Char
  | '=' :: '=' :: rest => '=' :: singleEquals rest
  | c :: rest => c :: singleEquals rest
  | [] => []

/-- The alternatives of a text, between `||`. -/
def alternatives : List Char → List (List Char)
  | '|' :: '|' :: rest => [] :: alternatives rest
  | c :: rest =>
      match alternatives rest with
      | [] => [[c]]
      | piece :: pieces => (c :: piece) :: pieces
  | [] => [[]]

/-- The versions that one alternative of a constraint admits. -/
def readAlternative (text : List Char) : Except Semver.ParseError RangeSet :=
  (Semver.Requirement.parseChars (singleEquals (Text.strip Text.isBlank text))).map (·.ranges)

/-- Read a constraint. A blank text and a lone `*` admit every version. -/
def parse (input : String) : Except ConstraintError Constraint :=
  let text := Text.strip Text.isBlank input.toList
  if text = [] || text = ['*'] then .ok any
  else
    match (alternatives text).mapM readAlternative with
    | .error cause => .error ⟨input, cause⟩
    | .ok sets => .ok (ofRanges (sets.foldl RangeSet.union .empty))

end Constraint

end DepSolver
