import DepSolver.Text.Basic
import DepSolver.Text.Letter

/-!
The header of a Go source file: its package clause and its import declarations. What comes after
them is not read.
-/

namespace DepSolver.GoSource

/-- Why a file has no readable header. -/
inductive HeaderError
  | unterminatedComment
  | unterminatedRawString
  | unterminatedString
  | unterminatedImports
  | noPackageClause
  | noPackageName
  | noImportPath
deriving DecidableEq

def HeaderError.message : HeaderError → String
  | unterminatedComment => "unterminated comment"
  | unterminatedRawString => "unterminated raw string"
  | unterminatedString => "unterminated string"
  | unterminatedImports => "unterminated import block"
  | noPackageClause => "expected package clause"
  | noPackageName => "expected package name"
  | noImportPath => "expected import path string"

/-- A package name and the paths that a file imports, in the order in which they are written. -/
structure Header where
  packageName : String
  imports : List String
deriving DecidableEq

/-- A blank or a semicolon. -/
def isTrivial (c : Char) : Bool := Text.isBlank c || c = ';'

/-- Skip blanks, semicolons and comments. Every comment takes two characters at least, so `fuel` may
be the length of the input. -/
def skipTrivia (fuel : Nat) (input : List Char) : Except HeaderError (List Char) :=
  match fuel, input.dropWhile isTrivial with
  | fuel + 1, '/' :: '/' :: rest => skipTrivia fuel (rest.dropWhile (· ≠ '\n'))
  | fuel + 1, '/' :: '*' :: rest =>
      match Text.cut? ['*', '/'] rest with
      | some (_, rest) => skipTrivia fuel rest
      | none => .error .unterminatedComment
  | _, rest => .ok rest

/-- The input after blanks, semicolons and comments. -/
def afterTrivia (input : List Char) : Except HeaderError (List Char) :=
  skipTrivia (input.length + 1) input

/-- A letter, a digit or an underscore. -/
def isWordChar (c : Char) : Bool := Text.isLetterOrDigit c || c = '_'

/-- The identifier at the front, if there is one, and the rest. -/
def takeWord (input : List Char) : Option String × List Char :=
  let word := input.takeWhile isWordChar
  match word with
  | [] => (none, input)
  | c :: _ =>
      if c.isDigit then (none, input) else (some (.ofList word), input.dropWhile isWordChar)

/-- The rest of a string in double quotes. A backslash stands for the character after it. -/
def readQuoted (done : List Char) : List Char → Except HeaderError (String × List Char)
  | '"' :: rest => .ok (.ofList done.reverse, rest)
  | '\\' :: c :: rest => readQuoted (c :: done) rest
  | '\\' :: [] | '\n' :: _ | [] => .error .unterminatedString
  | c :: rest => readQuoted (c :: done) rest

/-- A string, raw or in double quotes. -/
def readString : List Char → Except HeaderError (String × List Char)
  | '`' :: rest =>
      match Text.cut? ['`'] rest with
      | some (body, rest) => .ok (.ofList body, rest)
      | none => .error .unterminatedRawString
  | '"' :: rest => readQuoted [] rest
  | _ => .error .noImportPath

/-- Skip the name of an import: a dot, an underscore or an identifier. -/
def skipName : List Char → List Char
  | '.' :: rest | '_' :: rest => rest
  | input => (takeWord input).2

/-- The path of one import, which may have a name before it. -/
def readImport (input : List Char) : Except HeaderError (String × List Char) := do
  readString (← afterTrivia (skipName input))

/-- The paths of the imports up to a closing parenthesis. Every import takes a character at least,
so `fuel` may be the length of the input and one. -/
def readGroup : (fuel : Nat) → (done : List String) → List Char →
    Except HeaderError (List String × List Char)
  | 0, _, _ => .error .unterminatedImports
  | fuel + 1, done, input => do
      match ← afterTrivia input with
      | ')' :: rest => return (done, rest)
      | [] => throw .unterminatedImports
      | rest =>
          let (path, rest) ← readImport rest
          readGroup fuel (done ++ [path]) rest

/-- The paths of the import declarations at the front, up to the first other declaration; `fuel` may
be the length of the input and one. -/
def readDeclarations : (fuel : Nat) → (done : List String) → List Char →
    Except HeaderError (List String)
  | 0, done, _ => .ok done
  | fuel + 1, done, input => do
      match takeWord (← afterTrivia input) with
      | (some "import", rest) =>
          match ← afterTrivia rest with
          | '(' :: rest =>
              let (done, rest) ← readGroup (rest.length + 1) done rest
              readDeclarations fuel done rest
          | rest =>
              let (path, rest) ← readImport rest
              readDeclarations fuel (done ++ [path]) rest
      | _ => return done

def readHeader (source : String) : Except HeaderError Header := do
  match takeWord (← afterTrivia source.toList) with
  | (some "package", rest) =>
      match takeWord (← afterTrivia rest) with
      | (some name, rest) => return ⟨name, ← readDeclarations (rest.length + 1) [] rest⟩
      | (none, _) => throw .noPackageName
  | _ => throw .noPackageClause

/-- Whether a file is left out of every build: before anything else than blank lines and comments,
it has a build constraint `ignore`. Only the first build constraint counts. -/
def isIgnored (lines : List (List Char)) : Bool :=
  match lines with
  | [] => false
  | line :: rest =>
      let line := Text.strip Text.isBlank line
      if line.isEmpty then isIgnored rest
      else if (Text.dropStart? "//".toList line).isNone then false
      else
        match Text.dropStart? "//go:build".toList line with
        | some condition => Text.strip Text.isBlank condition = "ignore".toList
        | none =>
            match Text.dropStart? "// +build".toList line with
            | some tags => (Text.words tags).contains "ignore".toList
            | none => isIgnored rest

end DepSolver.GoSource
