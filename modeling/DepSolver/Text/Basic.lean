/-!
Blank characters, the removal of blanks at the ends of a text, and its division into lines.
-/

namespace DepSolver.Text

/-- A character with the property White_Space. -/
def isBlank (c : Char) : Bool :=
  (9 ≤ c.toNat && c.toNat ≤ 13) || c.toNat == 0x20 || c.toNat == 0x85 || c.toNat == 0xa0 ||
  c.toNat == 0x1680 || (0x2000 ≤ c.toNat && c.toNat ≤ 0x200a) || c.toNat == 0x2028 ||
  c.toNat == 0x2029 || c.toNat == 0x202f || c.toNat == 0x205f || c.toNat == 0x3000

/-- Drop the characters at the end that satisfy a test. -/
def dropEnd (drop : Char → Bool) (l : List Char) : List Char :=
  (l.reverse.dropWhile drop).reverse

/-- Drop the characters at both ends that satisfy a test. -/
def strip (drop : Char → Bool) (l : List Char) : List Char :=
  dropEnd drop (l.dropWhile drop)

/-- Drop the blanks at both ends. -/
def trim (s : String) : String :=
  .ofList (strip isBlank s.toList)

/-- The pieces of a list between the occurrences of a character; one more piece than occurrences. -/
def splitAt (sep : Char) : List Char → List (List Char)
  | [] => [[]]
  | c :: rest =>
      if c = sep then [] :: splitAt sep rest
      else
        match splitAt sep rest with
        | [] => [[c]]
        | piece :: pieces => (c :: piece) :: pieces

/-- The pieces of a text between the occurrences of a character. -/
def split (sep : Char) (s : String) : List String :=
  (splitAt sep s.toList).map .ofList

/-- Drop one carriage return at the end of a line. -/
def dropReturn (line : List Char) : List Char :=
  match line.reverse with
  | '\r' :: rest => rest.reverse
  | _ => line

/-- The lines of a text, without their ends. A line ends with a line feed or with a carriage return
and a line feed; the last line need not end. -/
def lines (l : List Char) : List (List Char) :=
  let pieces := splitAt '\n' l
  let ended := pieces.dropLast.map dropReturn
  match pieces.getLast? with
  | none | some [] => ended
  | some last => ended ++ [last]

/-- The words of a text, between blanks. -/
def words (l : List Char) : List (List Char) :=
  (splitAt ' ' (l.map fun c => if isBlank c then ' ' else c)).filter (· ≠ [])

/-- Drop `start` from the front of a list, if it stands there. -/
def dropStart? (start : List Char) (l : List Char) : Option (List Char) :=
  match start, l with
  | [], l => some l
  | _ :: _, [] => none
  | a :: start, b :: l => if a = b then dropStart? start l else none

/-- Drop `ending` from the end of a list, if it stands there. -/
def dropEnding? (ending : List Char) (l : List Char) : Option (List Char) :=
  (dropStart? ending.reverse l.reverse).map List.reverse

/-- Whether a text starts with another one. -/
def startsWith (start s : String) : Bool := (dropStart? start.toList s.toList).isSome

/-- Whether a text ends with another one. -/
def endsWith (ending s : String) : Bool := (dropEnding? ending.toList s.toList).isSome

/-- The part of a list before the first place where `word` stands, and the part after it. -/
def cut? (word : List Char) : List Char → Option (List Char × List Char)
  | [] => if word = [] then some ([], []) else none
  | c :: rest =>
      match dropStart? word (c :: rest) with
      | some after => some ([], after)
      | none => (cut? word rest).map fun (before, after) => (c :: before, after)

/-- A number in hexadecimal digits, lower case, with at least `width` of them. -/
def hex (width n : Nat) : String :=
  let digits := Nat.toDigits 16 n
  .ofList (List.replicate (width - digits.length) '0' ++ digits)

end DepSolver.Text
