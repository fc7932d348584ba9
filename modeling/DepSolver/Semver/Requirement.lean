import DepSolver.Semver.Parser

/-!
Version requirements: comparators between commas, such as `>=1.2, <2.0.0-rc.1`.
-/

namespace DepSolver.Semver

/-- How a comparator relates versions to the version that it names. -/
inductive Relation
  | exact
  | greater
  | greaterEq
  | less
  | lessEq
  | tilde
  | caret
  | wildcard
deriving DecidableEq

/-- A relation and a version, of which the minor and patch numbers may be left open. -/
structure Comparator where
  relation : Relation
  major : UInt64
  minor : Option UInt64
  patch : Option UInt64
  pre : List String
deriving DecidableEq

/-- Comparators that must hold together. -/
structure Requirement where
  comparators : List Comparator
deriving DecidableEq

namespace Requirement

def dropSpaces (input : List Char) : List Char := input.dropWhile (· = ' ')

/-- Read a wildcard, if one stands there. -/
def readWildcard? : List Char → Option (Char × List Char)
  | '*' :: rest => some ('*', rest)
  | 'x' :: rest => some ('x', rest)
  | 'X' :: rest => some ('X', rest)
  | _ => none

/-- Read a relation, if one stands there. -/
def readRelation? : List Char → Option (Relation × List Char)
  | '=' :: rest => some (.exact, rest)
  | '>' :: '=' :: rest => some (.greaterEq, rest)
  | '>' :: rest => some (.greater, rest)
  | '<' :: '=' :: rest => some (.lessEq, rest)
  | '<' :: rest => some (.less, rest)
  | '~' :: rest => some (.tilde, rest)
  | '^' :: rest => some (.caret, rest)
  | _ => none

/-- A number after a dot, as far as it is given. -/
inductive Field
  | absent
  | wildcard
  | number (n : UInt64)
deriving DecidableEq

def Field.toOption : Field → Option UInt64
  | .number n => some n
  | _ => none

/-- Read a dot and a number or a wildcard, if a dot stands there. After a wildcard only another
wildcard may follow. -/
def readField (part : Part) (before : Field) (input : List Char) : Reading Field :=
  match input with
  | '.' :: input =>
      match readWildcard? input with
      | some (_, rest) => .ok (.wildcard, rest)
      | none =>
          if before = .wildcard then .error .afterWildcard
          else (readNumber part input).map fun (n, rest) => (.number n, rest)
  | _ => .ok (.absent, input)

/-- Read one comparator and the spaces after it. A bare version means the caret relation, and the
wildcard relation where a wildcard stands in it. The part returned is the one read last. -/
def readComparator (input : List Char) :
    Except ParseError ((Comparator × Part) × List Char) := do
  let (relation?, input) := match readRelation? input with
    | some (relation, rest) => (some relation, rest)
    | none => (none, input)
  let (major, input) ← readNumber .major (dropSpaces input)
  let (minor, input) ← readField .minor .absent input
  let (patch, input) ← readField .patch minor input
  let bare := if minor = .wildcard || patch = .wildcard then .wildcard else .caret
  let last := if patch ≠ .absent then .patch else if minor ≠ .absent then .minor else .major
  let complete := patch.toOption.isSome
  let ((pre, last), input) ←
    if complete then readFieldsAfter '-' .pre last input else pure (([], last), input)
  let ((_, last), input) ←
    if complete then readFieldsAfter '+' .build last input else pure (([], last), input)
  let comparator : Comparator :=
    ⟨relation?.getD bare, major, minor.toOption, patch.toOption, pre⟩
  return ((comparator, last), dropSpaces input)

/-- Read comparators between commas, at most `limit` of them. -/
def readComparators : Nat → List Char → Except ParseError (List Comparator)
  | 0, _ => .error .tooManyComparators
  | limit + 1, input =>
      match readComparator input with
      | .error e =>
          match readWildcard? input with
          | some (c, rest) =>
              match dropSpaces rest with
              | [] | ',' :: _ => .error (.wildcardNotAlone c)
              | _ => .error e
          | none => .error e
      | .ok ((comparator, last), input) =>
          match input with
          | [] => .ok [comparator]
          | ',' :: rest => (readComparators limit (dropSpaces rest)).map (comparator :: ·)
          | c :: _ => .error (.expectedComma last c)

/-- The largest number of comparators in a requirement. -/
def maxComparators : Nat := 32

/-- Read a whole text as a requirement. A wildcard alone requires nothing. -/
def parseChars (input : List Char) : Except ParseError Requirement :=
  let input := dropSpaces input
  match readWildcard? input with
  | some (c, rest) =>
      match dropSpaces rest with
      | [] => .ok ⟨[]⟩
      | ',' :: _ => .error (.wildcardNotAlone c)
      | _ => .error .afterWildcard
  | none => (readComparators maxComparators input).map (⟨·⟩)

def parse (s : String) : Except ParseError Requirement := parseChars s.toList

end Requirement

end DepSolver.Semver
