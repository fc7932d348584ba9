import DepSolver.Toml.Value

/-!
Reading TOML. A reader takes the characters from its position on and returns what it read with the
characters after it, or nothing if they do not fit.
-/

namespace DepSolver.Toml

/-- What a reader returns. -/
abbrev Reading (α : Type) := Option (α × List Char)

def isSpace (c : Char) : Bool := c = ' ' || c = '\t'

def dropSpaces (input : List Char) : List Char := input.dropWhile isSpace

/-- Read a line end. -/
def readNewline : List Char → Option (List Char)
  | '\n' :: rest => some rest
  | '\r' :: '\n' :: rest => some rest
  | _ => none

/-- A character that may stand in a comment or, apart from delimiters, in a string. -/
def isPlain (c : Char) : Bool := c = '\t' || (0x20 ≤ c.toNat && c.toNat ≠ 0x7f)

/-- Read spaces, a comment and the end of a line or of the text. -/
def readLineEnd (input : List Char) : Option (List Char) :=
  let input := dropSpaces input
  let input := match input with
    | '#' :: rest => rest.dropWhile isPlain
    | _ => input
  match input with
  | [] => some []
  | _ => readNewline input

/-- Drop spaces, comments and line ends, between the items of an array. -/
def dropBlank : Nat → List Char → List Char
  | 0, input => input
  | fuel + 1, input =>
      let input := dropSpaces input
      match readNewline input with
      | some rest => dropBlank fuel rest
      | none =>
          match input with
          | '#' :: _ =>
              match readLineEnd input with
              | some rest => dropBlank fuel rest
              | none => input
          | _ => input

/-- The value of a hexadecimal digit. -/
def hexDigit? (c : Char) : Option Nat :=
  if c.isDigit then some (c.toNat - '0'.toNat)
  else if 'a' ≤ c && c ≤ 'f' then some (c.toNat - 'a'.toNat + 10)
  else if 'A' ≤ c && c ≤ 'F' then some (c.toNat - 'A'.toNat + 10)
  else none

/-- Read a character by its number of `count` hexadecimal digits. -/
def readCode (count : Nat) (input : List Char) : Reading Char :=
  let digits := input.take count
  if digits.length < count then none
  else
    match digits.mapM hexDigit? with
    | none => none
    | some values =>
        let code := values.foldl (16 * · + ·) 0
        if code.isValidChar then some (.ofNat code, input.drop count) else none

/-- Read what follows a backslash. -/
def readEscape : List Char → Reading Char
  | 'b' :: rest => some ('\x08', rest)
  | 't' :: rest => some ('\t', rest)
  | 'n' :: rest => some ('\n', rest)
  | 'f' :: rest => some ('\x0c', rest)
  | 'r' :: rest => some ('\r', rest)
  | '"' :: rest => some ('"', rest)
  | '\\' :: rest => some ('\\', rest)
  | 'u' :: rest => readCode 4 rest
  | 'U' :: rest => readCode 8 rest
  | _ => none

/-- Read a string on one line, after its opening delimiter; `done` holds its characters so far,
newest first. -/
def readLine (fuel : Nat) (delimiter : Char) (done input : List Char) : Reading String :=
  match fuel, input with
  | 0, _ | _, [] => none
  | fuel + 1, c :: rest =>
      if c = delimiter then some (.ofList done.reverse, rest)
      else if c = '\\' && delimiter = '"' then
        match readEscape rest with
        | some (e, rest) => readLine fuel delimiter (e :: done) rest
        | none => none
      else if isPlain c then readLine fuel delimiter (c :: done) rest
      else none

/-- Drop spaces and line ends, after a backslash at the end of a line. -/
def dropLineEnds (fuel : Nat) (input : List Char) : List Char :=
  match fuel with
  | 0 => input
  | fuel + 1 =>
      let input := dropSpaces input
      match readNewline input with
      | some rest => dropLineEnds fuel rest
      | none => input

/-- Read a string over several lines, after its opening delimiters; `done` holds its characters so
far, newest first. Up to two delimiters may stand before the three that close it. -/
def readLines (fuel : Nat) (delimiter : Char) (done input : List Char) : Reading String :=
  match fuel, input with
  | 0, _ | _, [] => none
  | fuel + 1, c :: rest =>
      if c = delimiter then
        let run := input.takeWhile (· = delimiter)
        let extra := run.length - 3
        if run.length < 3 then readLines fuel delimiter (c :: done) rest
        else if extra ≤ 2 then
          some (.ofList (List.replicate extra c ++ done).reverse, input.drop run.length)
        else none
      else if c = '\\' && delimiter = '"' then
        match readEscape rest with
        | some (e, rest) => readLines fuel delimiter (e :: done) rest
        | none =>
            match readNewline (dropSpaces rest) with
            | some rest => readLines fuel delimiter done (dropLineEnds rest.length rest)
            | none => none
      else
        match readNewline input with
        | some rest => readLines fuel delimiter ('\n' :: done) rest
        | none => if isPlain c then readLines fuel delimiter (c :: done) rest else none

/-- Drop a line end, if one stands there. -/
def dropNewline (input : List Char) : List Char := (readNewline input).getD input

/-- Read a string of any kind. -/
def readString (input : List Char) : Reading String :=
  match input with
  | '"' :: '"' :: '"' :: rest => readLines rest.length '"' [] (dropNewline rest)
  | '\'' :: '\'' :: '\'' :: rest => readLines rest.length '\'' [] (dropNewline rest)
  | '"' :: rest => readLine rest.length '"' [] rest
  | '\'' :: rest => readLine rest.length '\'' [] rest
  | _ => none

/-- A character of a key without quotes. -/
def isKeyChar (c : Char) : Bool := c.isAlphanum || c = '-' || c = '_'

/-- Read one part of a key. -/
def readKeyPart (input : List Char) : Reading String :=
  match input with
  | '"' :: rest => readLine rest.length '"' [] rest
  | '\'' :: rest => readLine rest.length '\'' [] rest
  | _ =>
      match input.takeWhile isKeyChar with
      | [] => none
      | word => some (.ofList word, input.dropWhile isKeyChar)

/-- How deep values may be nested, and how many parts a key may have. -/
def nestingLimit : Nat := 80

/-- Read the parts of a key, between dots, with the spaces around them. -/
def readKeyParts : Nat → List Char → Reading (List String)
  | 0, _ => none
  | limit + 1, input =>
      match readKeyPart (dropSpaces input) with
      | none => none
      | some (part, rest) =>
          match dropSpaces rest with
          | '.' :: rest => (readKeyParts limit rest).map fun (parts, rest) => (part :: parts, rest)
          | rest => some ([part], rest)

def readKey (input : List Char) : Reading (List String) := readKeyParts (nestingLimit - 1) input

/-- Digits of a base with underscores between some of them. -/
def isDigits (isDigit : Char → Bool) (text : List Char) : Bool :=
  (Text.splitAt '_' text).all fun run => !run.isEmpty && run.all isDigit

/-- The value of digits of a base, underscores left out. -/
def digitsValue (base : Nat) (text : List Char) : Nat :=
  ((text.filter (· ≠ '_')).filterMap hexDigit?).foldl (base * · + ·) 0

/-- Split off a sign. -/
def takeSign : List Char → Bool × List Char
  | '-' :: rest => (true, rest)
  | '+' :: rest => (false, rest)
  | text => (false, text)

/-- Decimal digits without a leading zero. -/
def isDecimal (text : List Char) : Bool :=
  isDigits Char.isDigit text && (text.head? ≠ some '0' || text.length = 1)

/-- Read a whole word as an integer of 64 bits. -/
def integer? (text : List Char) : Option Int :=
  let bound : Int := Int.ofNat (Nat.pow 2 63)
  let bounded (n : Int) : Option Int := if -bound ≤ n && n < bound then some n else none
  let based (base : Nat) (isDigit : Char → Bool) (digits : List Char) : Option Int :=
    if isDigits isDigit digits then bounded (digitsValue base digits) else none
  match text with
  | '0' :: 'x' :: digits => based 16 (fun c => (hexDigit? c).isSome) digits
  | '0' :: 'o' :: digits => based 8 (fun c => '0' ≤ c && c ≤ '7') digits
  | '0' :: 'b' :: digits => based 2 (fun c => c = '0' || c = '1') digits
  | text =>
      let (negative, digits) := takeSign text
      if isDecimal digits then
        let n : Int := digitsValue 10 digits
        bounded (if negative then -n else n)
      else none

/-- Whether `m` times ten to the power of `e` rounds to infinity as a float of 64 bits. -/
def exceedsFloat (m : Nat) (e : Int) : Bool :=
  let bound := Nat.pow 2 1024 - Nat.pow 2 970
  if m = 0 then false
  else if 400 < e then true
  else if 0 ≤ e then bound ≤ m * Nat.pow 10 e.toNat
  else bound ≤ m / Nat.pow 10 (min (-e).toNat (m.log2 + 1))

/-- Whether a whole word is a float. A number too large for a float is none. -/
def isFloat (text : List Char) : Bool :=
  let (negative, text) := takeSign text
  if text = ['i', 'n', 'f'] || text = ['n', 'a', 'n'] then true
  else
    let isExponentMark c := c = 'e' || c = 'E'
    let isMantissaChar c := !isExponentMark c
    let mantissa := text.takeWhile isMantissaChar
    let exponent := (text.dropWhile isMantissaChar).drop 1
    let hasExponent := text.any isExponentMark
    let whole := mantissa.takeWhile (· ≠ '.')
    let fraction := (mantissa.dropWhile (· ≠ '.')).drop 1
    let hasFraction := mantissa.contains '.'
    let (negativeExponent, exponentDigits) := takeSign exponent
    let shape := (hasExponent || hasFraction) && isDecimal whole &&
      (!hasFraction || isDigits Char.isDigit fraction) &&
      (!hasExponent || isDigits Char.isDigit exponentDigits)
    let fractionDigits := fraction.filter (· ≠ '_')
    let shift : Int := digitsValue 10 exponentDigits
    let exponentValue := (if negativeExponent then -shift else shift) - fractionDigits.length
    shape && (negative || !exceedsFloat (digitsValue 10 (whole ++ fractionDigits)) exponentValue)

/-- The value of a text of exactly `count` digits. -/
def digits? (count : Nat) (text : List Char) : Option Nat :=
  if text.length = count && text.all Char.isDigit then some (digitsValue 10 text) else none

def daysInMonth (year month : Nat) : Nat :=
  if month = 2 then
    if year % 4 = 0 && (year % 100 ≠ 0 || year % 400 = 0) then 29 else 28
  else if month = 4 || month = 6 || month = 9 || month = 11 then 30
  else 31

def isDate (text : List Char) : Bool :=
  match Text.splitAt '-' text with
  | [y, m, d] =>
      match digits? 4 y, digits? 2 m, digits? 2 d with
      | some y, some m, some d => 1 ≤ m && m ≤ 12 && 1 ≤ d && d ≤ daysInMonth y m
      | _, _, _ => false
  | _ => false

def isHourMinute (h m : List Char) : Bool :=
  (digits? 2 h).any (· ≤ 23) && (digits? 2 m).any (· ≤ 59)

def isTime (text : List Char) : Bool :=
  match Text.splitAt ':' text with
  | [h, m, s] =>
      let fraction := s.drop 2
      isHourMinute h m && (digits? 2 (s.take 2)).any (· ≤ 60) &&
        match fraction with
        | [] => true
        | '.' :: digits => !digits.isEmpty && digits.all Char.isDigit
        | _ => false
  | _ => false

/-- Whether a text is an offset from universal time. -/
def isOffset (text : List Char) : Bool :=
  match text with
  | ['Z'] | ['z'] => true
  | sign :: rest =>
      (sign = '+' || sign = '-') &&
        match Text.splitAt ':' rest with
        | [h, m] => isHourMinute h m
        | _ => false
  | [] => false

/-- Whether a whole word is a date, a time, or a date with a time and perhaps an offset. -/
def isDatetime (text : List Char) : Bool :=
  if isTime text || isDate text then true
  else
    let rest := text.drop 10
    isDate (text.take 10) &&
      match rest with
      | delimiter :: rest =>
          let isTimeChar (c : Char) := c.isDigit || c = ':' || c = '.'
          let time := rest.takeWhile isTimeChar
          let offset := rest.dropWhile isTimeChar
          (delimiter = 'T' || delimiter = 't' || delimiter = ' ') && isTime time &&
            (offset.isEmpty || isOffset offset)
      | [] => false

/-- A character of a number, a date, a time or a boolean. -/
def isWordChar (c : Char) : Bool :=
  c.isAlphanum || c = '+' || c = '-' || c = '_' || c = '.' || c = ':'

/-- Read a word. One space may stand in it, between a date and a time. -/
def readWord (input : List Char) : List Char × List Char :=
  let word := input.takeWhile isWordChar
  let rest := input.dropWhile isWordChar
  match rest with
  | ' ' :: c :: _ =>
      if c.isDigit && isDate word then
        (word ++ ' ' :: (rest.drop 1).takeWhile isWordChar, (rest.drop 1).dropWhile isWordChar)
      else (word, rest)
  | _ => (word, rest)

/-- The value of a whole word. -/
def word (text : List Char) : Option Toml :=
  if text = ['t', 'r', 'u', 'e'] then some (boolean true)
  else if text = ['f', 'a', 'l', 's', 'e'] then some (boolean false)
  else if isDatetime text then some (datetime (.ofList text))
  else if isFloat text then some (float (.ofList text))
  else (integer? text).map integer

/-- How a table came about: by a header or braces of its own, as part of a longer header, or as part
of a dotted key. -/
inductive Origin
  | explicit
  | header
  | dotted
deriving DecidableEq

/-- What a key holds while a document is being read. -/
inductive Item
  | value (v : Toml)
  | table (origin : Origin) (entries : List (String × Item))
  | tables (elements : List (List (String × Item)))

/-- The entries of a table while a document is being read. -/
abbrev Entries := List (String × Item)

/-- Put an item at a key, in the place of the item that was there. -/
def Entries.put (key : String) (item : Item) : Entries → Entries
  | [] => [(key, item)]
  | (k, i) :: rest => if k = key then (key, item) :: rest else (k, i) :: Entries.put key item rest

/-- Change the table at a path, which is made where it is missing. A dotted key does not enter a
table that has a header of its own. -/
def changeAt (origin : Origin) (change : Origin → Entries → Option Entries) :
    List String → Origin → Entries → Option Entries
  | [], own, entries => change own entries
  | key :: path, _, entries =>
      match entries.lookup key with
      | none =>
          (changeAt origin change path origin []).map fun sub => entries.put key (.table origin sub)
      | some (.value _) => none
      | some (.table own sub) =>
          if origin = .dotted && own = .explicit then none
          else
            (changeAt origin change path own sub).map fun sub => entries.put key (.table own sub)
      | some (.tables elements) =>
          match elements.getLast? with
          | none => none
          | some last =>
              (changeAt origin change path .explicit last).map fun last =>
                entries.put key (.tables (elements.dropLast ++ [last]))

/-- Give a key its value. Only tables made by dotted keys are extended by them. -/
def bind (key : List String) (v : Toml) (entries : Entries) : Option Entries :=
  match key.getLast? with
  | none => none
  | some name =>
      let path := key.dropLast
      changeAt .dotted (fun own entries =>
        if (own == .dotted) == path.isEmpty then none
        else if (entries.lookup name).isSome then none
        else some (entries.put name (.value v))) path .explicit entries

/-- Add a table under a header. A table that only longer headers named so far may get its own. -/
def addTable (key : List String) (fill : Entries → Option Entries) (root : Entries) :
    Option Entries :=
  match key.getLast? with
  | none => none
  | some name =>
      changeAt .header (fun _ entries =>
        match entries.lookup name with
        | none => (fill []).map fun sub => entries.put name (.table .explicit sub)
        | some (.table .header sub) =>
            (fill sub).map fun sub => entries.put name (.table .explicit sub)
        | some _ => none) key.dropLast .explicit root

/-- Add an element to an array of tables. -/
def addElement (key : List String) (fill : Entries → Option Entries) (root : Entries) :
    Option Entries :=
  match key.getLast? with
  | none => none
  | some name =>
      changeAt .header (fun _ entries =>
        match entries.lookup name with
        | none => (fill []).map fun sub => entries.put name (.tables [sub])
        | some (.tables elements) =>
            (fill []).map fun sub => entries.put name (.tables (elements ++ [sub]))
        | some _ => none) key.dropLast .explicit root

mutual

/-- The value of an item. -/
def Item.toToml : Item → Toml
  | .value v => v
  | .table _ entries => .table (entriesToToml entries)
  | .tables elements => .array (elementsToToml elements)

def entriesToToml : List (String × Item) → List (String × Toml)
  | [] => []
  | (key, item) :: rest => (key, item.toToml) :: entriesToToml rest

def elementsToToml : List (List (String × Item)) → List Toml
  | [] => []
  | entries :: rest => .table (entriesToToml entries) :: elementsToToml rest

end

mutual

/-- Read a value; `depth` is how much deeper values may be nested. Every step takes at least one
character, so `fuel` need not exceed twice their number. -/
def readValue (fuel depth : Nat) (input : List Char) : Reading Toml :=
  match fuel with
  | 0 => none
  | fuel + 1 =>
      match input with
      | '"' :: _ | '\'' :: _ => (readString input).map fun (s, rest) => (.string s, rest)
      | '[' :: rest =>
          match depth with
          | 0 => none
          | depth + 1 => (readItems fuel depth rest).map fun (items, rest) => (.array items, rest)
      | '\x7b' :: rest =>
          match depth with
          | 0 => none
          | depth + 1 =>
              match dropSpaces rest with
              | '\x7d' :: rest => some (.table [], rest)
              | _ => readBindings fuel depth [] rest
      | _ =>
          let (text, rest) := readWord input
          (word text).map (·, rest)

/-- Read the items of an array, after its opening bracket or a comma, and the closing bracket. -/
def readItems (fuel depth : Nat) (input : List Char) : Reading (List Toml) :=
  match fuel with
  | 0 => none
  | fuel + 1 =>
      match dropBlank input.length input with
      | ']' :: rest => some ([], rest)
      | input =>
          match readValue fuel depth input with
          | none => none
          | some (v, rest) =>
              match dropBlank rest.length rest with
              | ',' :: rest => (readItems fuel depth rest).map fun (vs, rest) => (v :: vs, rest)
              | ']' :: rest => some ([v], rest)
              | _ => none

/-- Read the bindings of a table in braces, after its opening brace or a comma, and the closing
brace. -/
def readBindings (fuel depth : Nat) (entries : List (String × Item)) (input : List Char) :
    Reading Toml :=
  match fuel with
  | 0 => none
  | fuel + 1 =>
      match readKey input with
      | some (key, '=' :: rest) =>
          match readValue fuel depth (dropSpaces rest) with
          | none => none
          | some (v, rest) =>
              match bind key v entries with
              | none => none
              | some entries =>
                  match dropSpaces rest with
                  | ',' :: rest => readBindings fuel depth entries rest
                  | '\x7d' :: rest => some (.table (entriesToToml entries), rest)
                  | _ => none
      | _ => none

end

/-- A part of a document: a header, or none for the start, and the bindings under it. -/
structure Part where
  isElement : Bool
  key : List String
  bindings : List (List String × Toml)

/-- Read a header after its opening bracket: whether it adds an element to an array, its key, and
the end of its line. -/
def readHeader (input : List Char) : Reading (Bool × List String) :=
  match input with
  | '[' :: rest =>
      match readKey rest with
      | some (key, ']' :: ']' :: rest) => (readLineEnd rest).map ((true, key), ·)
      | _ => none
  | _ =>
      match readKey input with
      | some (key, ']' :: rest) => (readLineEnd rest).map ((false, key), ·)
      | _ => none

/-- Read the parts of a document. Each line takes at least one character; `part` is the one being
read, with its bindings newest first. -/
def readParts (fuel : Nat) (part : Part) (input : List Char) : Option (List Part) :=
  let finished := { part with bindings := part.bindings.reverse }
  match fuel, dropSpaces input with
  | _, [] => some [finished]
  | 0, _ => none
  | fuel + 1, input =>
      match input with
      | '#' :: _ => (readLineEnd input).bind (readParts fuel part)
      | '\n' :: _ | '\r' :: _ => (readNewline input).bind (readParts fuel part)
      | '[' :: rest =>
          match readHeader rest with
          | some ((isElement, key), rest) =>
              (readParts fuel ⟨isElement, key, []⟩ rest).map (finished :: ·)
          | none => none
      | _ =>
          match readKey input with
          | some (key, '=' :: rest) =>
              match readValue (2 * rest.length + 2) (nestingLimit - 1) (dropSpaces rest) with
              | some (v, rest) =>
                  match readLineEnd rest with
                  | some rest =>
                      readParts fuel { part with bindings := (key, v) :: part.bindings } rest
                  | none => none
              | none => none
          | _ => none

/-- Enter the bindings of a part into a table. -/
def fill (bindings : List (List String × Toml)) (entries : Entries) : Option Entries :=
  bindings.foldlM (fun entries x => bind x.1 x.2 entries) entries

/-- Enter a part into a document. -/
def addPart (root : Entries) (part : Part) : Option Entries :=
  if part.key.isEmpty then fill part.bindings root
  else if part.isElement then addElement part.key (fill part.bindings) root
  else addTable part.key (fill part.bindings) root

/-- Read a whole text as a document. A byte order mark may stand before it. -/
def parse (s : String) : Option Toml := do
  let input := match s.toList with
    | '\ufeff' :: rest => rest
    | input => input
  let parts ← readParts input.length ⟨false, [], []⟩ input
  let root ← parts.foldlM addPart []
  return .table (entriesToToml root)

end DepSolver.Toml
