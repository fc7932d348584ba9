import DepSolver.Ignore.Glob.Matching

/-!
The regular expressions that glob patterns stand for. An expression whose groups are nested too
deeply is refused.
-/

namespace DepSolver.Glob

/-- The characters that stand for themselves only after a backslash. -/
def isSpecial (c : Char) : Bool := "\\.+*?()|[]\x7b\x7d^$#&-~".toList.contains c

/-- The text of a byte in an expression. -/
def byteText (b : UInt8) : String :=
  if b < 0x80 then
    let c := Char.ofNat b.toNat
    if isSpecial c then "\\" ++ c.toString else c.toString
  else "\\x" ++ Text.hex 2 b.toNat

def charText (c : Char) : String := String.join ((bytesOf c).map byteText)

def rangeText (range : Char × Char) : String :=
  if range.1 = range.2 then charText range.1 else charText range.1 ++ "-" ++ charText range.2

mutual

/-- The expression of a token. -/
def tokenText : GlobToken → String
  | .literal c => charText c
  | .anyByte => "[^/]"
  | .anyBytes => "[^/]*"
  | .leadingSegments => "(?:/?|.*/)"
  | .trailingSegments => "/.*"
  | .innerSegments => "(?:/|/.*/)"
  | .charClass negated ranges =>
      "[" ++ (if negated then "^" else "") ++ String.join (ranges.map rangeText) ++ "]"
  | .alternatives branches =>
      if allVoidBranches branches then ""
      else "(?:" ++ "|".intercalate (branchTexts branches) ++ ")"

def sequenceText : List GlobToken → String
  | [] => ""
  | token :: tokens => tokenText token ++ sequenceText tokens

/-- The expressions of the branches that stand for something. -/
def branchTexts : List (List GlobToken) → List String
  | [] => []
  | branch :: branches =>
      if allVoid branch then branchTexts branches
      else sequenceText branch :: branchTexts branches

end

/-- The expression of a pattern, over bytes. -/
def expressionText (g : Glob) : String := "(?-u)^" ++ sequenceText g.tokens ++ "$"

/-- The form of an expression: the number of its parts side by side, and how deep the deepest of
them is nested. -/
structure Form where
  parts : Nat
  depth : Nat

namespace Form

def none : Form := ⟨0, 0⟩

def append (f g : Form) : Form := ⟨f.parts + g.parts, max f.depth g.depth⟩

/-- The depth of an expression as one part; several parts side by side are one level deeper. -/
def level (f : Form) : Nat := if 1 < f.parts then f.depth + 1 else f.depth

end Form

mutual

/-- The form of a token's expression. -/
def tokenForm : GlobToken → Form
  | .literal c => ⟨(bytesOf c).length, 0⟩
  | .anyByte => ⟨1, 1⟩
  | .anyBytes => ⟨1, 2⟩
  | .leadingSegments | .innerSegments => ⟨1, 4⟩
  | .trailingSegments => ⟨2, 1⟩
  | .charClass _ ranges => ⟨1, if 1 < (ranges.flatMap byteRanges).length then 2 else 1⟩
  | .alternatives branches =>
      match branchLevels branches with
      | [] => .none
      | [level] => ⟨1, level + 1⟩
      | levels => ⟨1, levels.foldr max 0 + 2⟩

def sequenceForm : List GlobToken → Form
  | [] => .none
  | token :: tokens => (tokenForm token).append (sequenceForm tokens)

/-- The depths of the branches that stand for something. -/
def branchLevels : List (List GlobToken) → List Nat
  | [] => []
  | branch :: branches =>
      if allVoid branch then branchLevels branches
      else (sequenceForm branch).level :: branchLevels branches

end

/-- How deep expressions may be nested. -/
def nestingLimit : Nat := 250

/-- Whether the expression of a pattern is nested too deeply. The anchors at both ends make it a
sequence. -/
def isTooDeep (g : Glob) : Bool := nestingLimit < (sequenceForm g.tokens).depth + 1

/-- The index of the first pattern that is too deep. -/
def firstTooDeep? (globs : List Glob) : Option Nat := globs.findIdx? isTooDeep

/-- Why the expressions of some patterns are refused, if they are. Those that go with an extension
come first, one by one; all others are taken together. -/
def refusal? (globs : List Glob) : Option String :=
  match globs.find? fun g => g.subject = .extension && g.isTooDeep with
  | some g => some s!"error parsing glob '{g.expressionText}': error parsing pattern 0"
  | none =>
      (firstTooDeep? (globs.filter (·.subject = .expression))).map fun i =>
        s!"error parsing pattern {i}"

end DepSolver.Glob
