import DepSolver.Semver.Basic
import DepSolver.Text.Quoted

/-!
Reading semantic versions. A reader takes the characters from its position on and returns what it
read with the characters after it.
-/

namespace DepSolver.Semver

/-- The part of a version at which reading failed. -/
inductive Part
  | major
  | minor
  | patch
  | pre
  | build
deriving DecidableEq

/-- Why a text is no version or no version requirement. -/
inductive ParseError
  | empty
  | unexpectedEnd (part : Part)
  | unexpectedChar (part : Part) (c : Char)
  | unexpectedCharAfter (part : Part) (c : Char)
  | expectedComma (part : Part) (found : Char)
  | leadingZero (part : Part)
  | tooLarge (part : Part)
  | emptyField (part : Part)
  | wildcardNotAlone (wildcard : Char)
  | afterWildcard
  | tooManyComparators
deriving DecidableEq

def Part.name : Part → String
  | .major => "major version number"
  | .minor => "minor version number"
  | .patch => "patch version number"
  | .pre => "pre-release identifier"
  | .build => "build metadata"

def ParseError.message : ParseError → String
  | .empty => "empty string, expected a semver version"
  | .unexpectedEnd part => s!"unexpected end of input while parsing {part.name}"
  | .unexpectedChar part c => s!"unexpected character {Text.quoted c} while parsing {part.name}"
  | .unexpectedCharAfter part c => s!"unexpected character {Text.quoted c} after {part.name}"
  | .expectedComma part c => s!"expected comma after {part.name}, found {Text.quoted c}"
  | .leadingZero part => s!"invalid leading zero in {part.name}"
  | .tooLarge part => s!"value of {part.name} exceeds u64::MAX"
  | .emptyField part => s!"empty identifier segment in {part.name}"
  | .wildcardNotAlone c =>
      s!"wildcard req ({c}) must be the only comparator in the version req"
  | .afterWildcard => "unexpected character after wildcard in version req"
  | .tooManyComparators => "excessive number of version comparators"

/-- What a reader returns: a value and the characters after it. -/
abbrev Reading (α : Type) := Except ParseError (α × List Char)

/-- The value of a list of decimal digits. -/
def digitsValue (digits : List Char) : Nat :=
  digits.foldl (fun n c => 10 * n + (c.toNat - '0'.toNat)) 0

/-- Read a number of 64 bits that has no leading zero. -/
def readNumber (part : Part) (input : List Char) : Reading UInt64 :=
  let digits := input.takeWhile Char.isDigit
  let rest := input.dropWhile Char.isDigit
  match digits, rest with
  | [], [] => .error (.unexpectedEnd part)
  | [], c :: _ => .error (.unexpectedChar part c)
  | '0' :: _ :: _, _ => .error (.leadingZero part)
  | digits, rest =>
      let value := digitsValue digits
      if value < UInt64.size then .ok (.ofNat value, rest) else .error (.tooLarge part)

/-- Read the dot after a number. -/
def readDot (part : Part) : List Char → Except ParseError (List Char)
  | '.' :: rest => .ok rest
  | c :: _ => .error (.unexpectedCharAfter part c)
  | [] => .error (.unexpectedEnd part)

/-- A character of a prerelease or of build metadata: an ASCII letter, a digit or a hyphen. -/
def isFieldChar (c : Char) : Bool := c.isAlphanum || c = '-'

/-- What is wrong with a field, if anything: none is empty, and a numeric field of a prerelease
has no leading zero. -/
def fieldError? (part : Part) (field : List Char) : Option ParseError :=
  match field with
  | [] => some (.emptyField part)
  | '0' :: _ :: _ =>
      if part = .pre && field.all Char.isDigit then some (.leadingZero part) else none
  | _ => none

/-- Read fields between dots. -/
def readFields (part : Part) (input : List Char) : Reading (List String) :=
  let isIn c := isFieldChar c || c = '.'
  let fields := Text.splitAt '.' (input.takeWhile isIn)
  match fields.findSome? (fieldError? part) with
  | some e => .error e
  | none => .ok (fields.map .ofList, input.dropWhile isIn)

/-- Read fields if `mark` stands before them. The part returned is the one read last. -/
def readFieldsAfter (mark : Char) (part last : Part) (input : List Char) :
    Reading (List String × Part) :=
  match input with
  | c :: rest =>
      if c = mark then (readFields part rest).map fun (fields, rest) => ((fields, part), rest)
      else .ok (([], last), input)
  | [] => .ok (([], last), [])

/-- Read a whole text as a version. -/
def parseChars (input : List Char) : Except ParseError Semver := do
  if input.isEmpty then throw .empty
  let (major, input) ← readNumber .major input
  let input ← readDot .major input
  let (minor, input) ← readNumber .minor input
  let input ← readDot .minor input
  let (patch, input) ← readNumber .patch input
  let ((pre, last), input) ← readFieldsAfter '-' .pre .patch input
  let ((build, last), input) ← readFieldsAfter '+' .build last input
  match input with
  | c :: _ => throw (.unexpectedCharAfter last c)
  | [] => return { major, minor, patch, pre, build }

/-- Read a whole text as a version. -/
def parse (s : String) : Except ParseError Semver := parseChars s.toList

end DepSolver.Semver
