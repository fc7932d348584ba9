import DepSolver.Digest
import DepSolver.Ignore.Glob

/-!
Which paths a glob pattern matches. Matching is on the bytes of a path, so `?` and a class match one
byte. A front says how far the tokens of a pattern can lead: it marks the position before each byte
of a path and the one at its end.
-/

namespace DepSolver.Glob

/-- The bytes of a character in UTF-8. -/
def bytesOf (c : Char) : List UInt8 := String.utf8EncodeChar c

/-- The byte ranges of a class. Of a range between two characters, the bytes before the last one of
its first character and after the first one of its last character stand for themselves. -/
def byteRanges (range : Char × Char) : List (UInt8 × UInt8) :=
  let single (bytes : List UInt8) := bytes.map fun b => (b, b)
  if range.1 = range.2 then single (bytesOf range.1)
  else
    match (bytesOf range.1).reverse, bytesOf range.2 with
    | low :: before, high :: after => single before.reverse ++ (low, high) :: single after
    | _, _ => []

def inClass (negated : Bool) (ranges : List (Char × Char)) (b : UInt8) : Bool :=
  ((ranges.flatMap byteRanges).any fun r => r.1 ≤ b && b ≤ r.2) != negated

def isSlash (b : UInt8) : Bool := b = '/'.toUInt8

/-- The positions of a path that are reached. -/
abbrev Front := List Bool

namespace Front

/-- The front at the start of a path. -/
def start (path : List UInt8) : Front := true :: path.map fun _ => false

/-- The front from which nothing leads on. -/
def nowhere (path : List UInt8) : Front := false :: path.map fun _ => false

/-- The front after a byte that satisfies a test. -/
def step (test : UInt8 → Bool) (path : List UInt8) (front : Front) : Front :=
  false :: List.zipWith (fun b reached => reached && test b) path front

/-- The front after any number of bytes that satisfy a test; `carried` says whether they lead from
earlier positions to the first one. -/
def run (test : UInt8 → Bool) (carried : Bool) : List UInt8 → Front → Front
  | b :: path, reached :: front =>
      (carried || reached) :: run test ((carried || reached) && test b) path front
  | [], reached :: _ => [carried || reached]
  | _, [] => []

/-- The front after any number of bytes that satisfy a test. -/
def runs (test : UInt8 → Bool) (path : List UInt8) (front : Front) : Front :=
  run test false path front

/-- The positions of either of two fronts. -/
def union (front other : Front) : Front := List.zipWith (· || ·) front other

/-- Whether the end of the path is reached. -/
def isDone (front : Front) : Bool := front.getLast? = some true

end Front

mutual

/-- Whether a token can only stand for nothing because none of its branches has a token that
stands for something. -/
def isVoid : GlobToken → Bool
  | .alternatives branches => allVoidBranches branches
  | _ => false

def allVoid : List GlobToken → Bool
  | [] => true
  | token :: tokens => isVoid token && allVoid tokens

def allVoidBranches : List (List GlobToken) → Bool
  | [] => true
  | branch :: branches => allVoid branch && allVoidBranches branches

end

mutual

/-- The front after a token. Branches that stand for nothing are left out, and alternatives without
any other branch stand for nothing. -/
def advance (path : List UInt8) : GlobToken → Front → Front
  | .literal c, front => (bytesOf c).foldl (fun front b => front.step (· = b) path) front
  | .anyByte, front => front.step (!isSlash ·) path
  | .anyBytes, front => front.runs (!isSlash ·) path
  | .leadingSegments, front =>
      front.union ((front.runs (fun _ => true) path).step isSlash path)
  | .trailingSegments, front => (front.step isSlash path).runs (fun _ => true) path
  | .innerSegments, front =>
      let inside := front.step isSlash path
      inside.union ((inside.runs (fun _ => true) path).step isSlash path)
  | .charClass negated ranges, front => front.step (inClass negated ranges) path
  | .alternatives branches, front =>
      if allVoidBranches branches then front else advanceAny path branches front

/-- The front after a sequence of tokens. -/
def advanceAll (path : List UInt8) : List GlobToken → Front → Front
  | [], front => front
  | token :: tokens, front => advanceAll path tokens (advance path token front)

/-- The front after one of some branches. -/
def advanceAny (path : List UInt8) : List (List GlobToken) → Front → Front
  | [], _ => .nowhere path
  | branch :: branches, front =>
      let rest := advanceAny path branches front
      if allVoid branch then rest else (advanceAll path branch front).union rest

end

/-- What a pattern is compared with: a text with the path or with its name, or an expression with
the path, perhaps with a text for its extension. -/
inductive Subject
  | path
  | name
  | extension
  | expression
deriving DecidableEq

def isLiteral : GlobToken → Bool
  | .literal _ => true
  | _ => false

/-- Whether reversed tokens start with literals up to a dot, without a slash among them. -/
def endsInExtension : List GlobToken → Bool
  | .literal c :: rest => c = '.' || (c ≠ '/' && endsInExtension rest)
  | _ => false

/-- What a pattern is compared with. A text may follow `**/`, or stand before `/**`. -/
def subject (g : Glob) : Subject :=
  let isSlash : GlobToken → Bool
    | .literal c => c = '/'
    | _ => false
  let startsPath :=
    match g.tokens.reverse with
    | .trailingSegments :: rest => rest.all isLiteral
    | tokens => tokens.all isLiteral
  let endsPath :=
    match g.tokens with
    | .leadingSegments :: rest => !rest.isEmpty && rest.all isLiteral
    | _ => false
  if startsPath then .path
  else if endsPath then if g.tokens.any isSlash then .path else .name
  else if endsInExtension g.tokens.reverse then .extension
  else .expression

/-- Whether the last segment of a path is two dots. Such a path has no name and no extension. -/
def isNameless (path : String) : Bool := (Text.split '/' path).getLast? = some ".."

/-- Whether a pattern matches a whole path. A lone `**` matches every path. -/
def isMatch (g : Glob) (path : String) : Bool :=
  match g.tokens with
  | [.leadingSegments] => true
  | tokens =>
      let bytes := Digest.utf8 path
      !(isNameless path && (g.subject = .name || g.subject = .extension)) &&
        (advanceAll bytes tokens (.start bytes)).isDone

end DepSolver.Glob
