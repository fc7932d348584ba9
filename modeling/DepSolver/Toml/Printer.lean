import DepSolver.Toml.Value

/-!
Writing TOML. Of the forms of a string the first that fits is taken: a basic or a literal one
without escapes, a basic or a literal one between triple quotes without escapes, and else a basic
one with escapes.
-/

namespace DepSolver.Toml

/-- The forms of a string. -/
inductive StringForm
  | basic
  | literal
  | multilineBasic
  | multilineLiteral
deriving DecidableEq

/-- A control character other than a tab or a line feed. -/
def isControl (c : Char) : Bool :=
  (c.toNat ≤ 0x1f && c ≠ '\t' && c ≠ '\n') || c.toNat = 0x7f

/-- The length of the longest run of a character, where a run of length `current` stands before the
list. -/
def longestRun (c : Char) (current : Nat) : List Char → Nat
  | [] => current
  | d :: rest =>
      if d = c then longestRun c (current + 1) rest else max current (longestRun c 0 rest)

/-- The form in which a text is written. -/
def stringForm (s : List Char) : StringForm :=
  let plain := !s.any isControl
  let oneLine := !s.contains '\n'
  let noBackslash := !s.contains '\\'
  let quotes := longestRun '"' 0 s
  let apostrophes := longestRun '\'' 0 s
  if plain && oneLine && noBackslash && quotes = 0 then .basic
  else if plain && oneLine && apostrophes = 0 then .literal
  else if plain && noBackslash && quotes ≤ 2 then .multilineBasic
  else if plain && apostrophes ≤ 2 then .multilineLiteral
  else if oneLine then .basic
  else .multilineBasic

/-- A character other than a quote inside a basic string. -/
def escaped (multiline : Bool) (c : Char) : String :=
  if c = '\x08' then "\\b"
  else if c = '\t' then "\\t"
  else if c = '\n' then if multiline then "\n" else "\\n"
  else if c = '\x0c' then "\\f"
  else if c = '\r' then "\\r"
  else if c = '\\' then "\\\\"
  else if isControl c then "\\u" ++ (Text.hex 4 c.toNat).map Char.toUpper
  else c.toString

/-- The inside of a basic string. Between triple quotes two quotes in a row stand for themselves;
every other quote is escaped. `free` is the number of quotes that may follow as they are. -/
def renderBasic (multiline : Bool) (free : Nat) : List Char → String
  | [] => ""
  | '"' :: rest =>
      match free with
      | 0 => "\\\"" ++ renderBasic multiline (if multiline then 2 else 0) rest
      | free + 1 => "\"" ++ renderBasic multiline free rest
  | c :: rest => escaped multiline c ++ renderBasic multiline (if multiline then 2 else 0) rest

/-- A text as a TOML string. A text of several lines begins on a line of its own. -/
def renderString (s : String) : String :=
  let chars := s.toList
  let newline := if chars.contains '\n' then "\n" else ""
  match stringForm chars with
  | .basic => "\"" ++ renderBasic false 0 chars ++ "\""
  | .literal => "'" ++ s ++ "'"
  | .multilineBasic => "\"\"\"" ++ newline ++ renderBasic true 2 chars ++ "\"\"\""
  | .multilineLiteral => "'''" ++ newline ++ s ++ "'''"

/-- An array of strings, with a line for each if there are several. -/
def renderStrings (items : List String) : String :=
  match items with
  | [] => "[]"
  | [s] => "[" ++ renderString s ++ "]"
  | items => "[\n" ++ String.join (items.map fun s => "    " ++ renderString s ++ ",\n") ++ "]"

/-- A line that gives a key its value. -/
def renderEntry (key value : String) : String := key ++ " = " ++ value ++ "\n"

end DepSolver.Toml
