import DepSolver.Text.Basic

/-!
Glob patterns over slash-separated paths. `?` and `*` stay within a segment, `**` between slashes
crosses them, brackets hold a class, braces hold alternatives, and a backslash escapes.
-/

namespace DepSolver

/-- A part of a glob pattern. -/
inductive GlobToken
  | literal (c : Char)
  /-- `?`: a byte other than a slash. -/
  | anyByte
  /-- `*`: bytes other than slashes. -/
  | anyBytes
  /-- `**/` at the start: any segments, or none. -/
  | leadingSegments
  /-- `/**` at the end: anything below. -/
  | trailingSegments
  /-- `/**/` in the middle: any segments, or none. -/
  | innerSegments
  | charClass (negated : Bool) (ranges : List (Char × Char))
  | alternatives (branches : List (List GlobToken))
deriving Inhabited

/-- A glob pattern. -/
structure Glob where
  tokens : List GlobToken
deriving Inhabited

/-- Why a text is no glob pattern. -/
inductive GlobError
  | unclosedClass
  | invalidRange (first last : Char)
  | unopenedAlternatives
  | unclosedAlternatives
  | danglingEscape
deriving DecidableEq

def GlobError.message : GlobError → String
  | .unclosedClass => "unclosed character class; missing ']'"
  | .invalidRange first last => s!"invalid range; '{first}' > '{last}'"
  | .unopenedAlternatives =>
      "unopened alternate group; missing '\x7b' (maybe escape '\x7d' with '[\x7d]'?)"
  | .unclosedAlternatives =>
      "unclosed alternate group; missing '\x7d' (maybe escape '\x7b' with '[\x7b]'?)"
  | .danglingEscape => "dangling '\\'"

namespace Glob

/-- Read a class after its opening bracket and negation: the ranges so far, newest first, and
whether a hyphen is waiting for the end of its range. A bracket or a hyphen that comes first stands
for itself, and so does a hyphen that comes last. -/
def readRanges (ranges : List (Char × Char)) (inRange : Bool) :
    List Char → Except GlobError (List (Char × Char) × List Char)
  | [] => .error .unclosedClass
  | c :: rest =>
      if c = ']' && !ranges.isEmpty then
        .ok ((if inRange then ('-', '-') :: ranges else ranges).reverse, rest)
      else if c = '-' && !ranges.isEmpty && !inRange then readRanges ranges true rest
      else
        match ranges, inRange with
        | (first, _) :: others, true =>
            if c < first then .error (.invalidRange first c)
            else readRanges ((first, c) :: others) false rest
        | _, _ => readRanges ((c, c) :: ranges) false rest

/-- Read a class after its opening bracket. -/
def readClass : List Char → Except GlobError (GlobToken × List Char)
  | c :: rest =>
      if c = '!' || c = '^' then
        (readRanges [] false rest).map fun (ranges, rest) => (.charClass true ranges, rest)
      else
        (readRanges [] false (c :: rest)).map fun (ranges, rest) => (.charClass false ranges, rest)
  | [] => .error .unclosedClass

/-- A group of alternatives that is being read: what stands before it, newest token first, and its
finished branches, newest first. -/
structure OpenGroup where
  outside : List GlobToken
  branches : List (List GlobToken)

/-- What has been read of a pattern: the tokens of the current branch, newest first, the groups
around it, innermost first, and the character read last. -/
structure Progress where
  tokens : List GlobToken
  groups : List OpenGroup
  last : Option Char

/-- The place of a star pair, by what stands around it. -/
inductive StarPair
  /-- Not between slashes: two plain stars. -/
  | plain
  | leading
  | inner
  | trailing

/-- The place of a star pair between `p` and `rest`. -/
def Progress.starPair (p : Progress) (rest : List Char) : StarPair :=
  if p.tokens.isEmpty then
    match rest with
    | [] | '/' :: _ => .leading
    | _ => .plain
  else if p.last = some '/' ||
      (!p.groups.isEmpty && (p.last = some ',' || p.last = some '\x7b')) then
    match rest with
    | [] => .trailing
    | '/' :: _ => .inner
    | c :: _ => if (c = ',' || c = '\x7d') && !p.groups.isEmpty then .trailing else .plain
  else .plain

/-- Put the token of a star pair in place of the separator before it. After another star pair at the
start or at the end of a branch it adds nothing. -/
def placeSegments (token : GlobToken) : List GlobToken → List GlobToken
  | .leadingSegments :: tokens => .leadingSegments :: tokens
  | .trailingSegments :: tokens => .trailingSegments :: tokens
  | _ :: tokens => token :: tokens
  | [] => [token]

/-- Read a pattern to its end. Every step takes at least one character, so `fuel` need not exceed
their number. -/
def readTokens (fuel : Nat) (p : Progress) (input : List Char) :
    Except GlobError (List GlobToken) :=
  match fuel, input with
  | _, [] =>
      if p.groups.isEmpty then .ok p.tokens.reverse else .error .unclosedAlternatives
  | 0, _ => .ok p.tokens.reverse
  | fuel + 1, c :: rest =>
      let push (token : GlobToken) (last : Char) (rest : List Char) :=
        readTokens fuel { p with tokens := token :: p.tokens, last := some last } rest
      match c, rest with
      | '?', _ => push .anyByte c rest
      | '*', '*' :: rest =>
          let go (tokens : List GlobToken) (last : Char) (rest : List Char) :=
            readTokens fuel { p with tokens := tokens, last := some last } rest
          match p.starPair rest with
          | .plain => go (.anyBytes :: .anyBytes :: p.tokens) '*' rest
          | .leading => go (.leadingSegments :: p.tokens) '/' (rest.drop 1)
          | .inner => go (placeSegments .innerSegments p.tokens) '/' (rest.drop 1)
          | .trailing => go (placeSegments .trailingSegments p.tokens) '*' rest
      | '*', _ => push .anyBytes c rest
      | '[', _ =>
          match readClass rest with
          | .error e => .error e
          | .ok (token, rest) => push token ']' rest
      | '\x7b', _ =>
          readTokens fuel ⟨[], ⟨p.tokens, []⟩ :: p.groups, some c⟩ rest
      | '\x7d', _ =>
          match p.groups with
          | [] => .error .unopenedAlternatives
          | group :: groups =>
              let branches := (p.tokens.reverse :: group.branches).reverse
              readTokens fuel ⟨.alternatives branches :: group.outside, groups, some c⟩ rest
      | ',', _ =>
          match p.groups with
          | [] => push (.literal c) c rest
          | group :: groups =>
              let group := { group with branches := p.tokens.reverse :: group.branches }
              readTokens fuel ⟨[], group :: groups, some c⟩ rest
      | '\\', [] => .error .danglingEscape
      | '\\', escaped :: rest => push (.literal escaped) escaped rest
      | _, _ => push (.literal c) c rest

/-- Read a whole text as a pattern. -/
def parse (pattern : String) : Except GlobError Glob :=
  let input := pattern.toList
  (readTokens input.length ⟨[], [], none⟩ input).map (⟨·⟩)

end Glob

end DepSolver
