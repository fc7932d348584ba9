import DepSolver.Failure
import DepSolver.Ignore.Glob.Expression
import DepSolver.Table

/-!
Ignore rules: patterns for import paths that are left out of a solution. A pattern that ends in `*`
and has no other wildcard ignores every path that starts with the rest of it; any other pattern is a
glob.
-/

namespace DepSolver

/-- What one pattern ignores. -/
inductive IgnoreRule
  | startingWith (start : String)
  | glob (glob : Glob)
deriving Inhabited

namespace IgnoreRule

/-- A character that has a meaning in globs. -/
def isWildcard (c : Char) : Bool := ['*', '?', '[', ']', '\x7b', '\x7d'].contains c

def ofPattern (pattern : String) : Except Failure IgnoreRule :=
  let asGlob :=
    match Glob.parse pattern with
    | .ok g => .ok (.glob g)
    | .error e =>
        .error (.input (s!"invalid ignore pattern `{pattern}`: error parsing glob '{pattern}': " ++
          e.message))
  match Text.dropEnding? ['*'] pattern.toList with
  | some start => if start.any isWildcard then asGlob else .ok (.startingWith (.ofList start))
  | none => asGlob

def glob? : IgnoreRule → Option Glob
  | .glob g => some g
  | .startingWith _ => none

def ignores (rule : IgnoreRule) (path : String) : Bool :=
  match rule with
  | .startingWith start => (Text.dropStart? start.toList path.toList).isSome
  | .glob g => g.isMatch path

end IgnoreRule

/-- A set of patterns with their rules. -/
structure IgnoreRules where
  rules : Table String IgnoreRule
deriving Inhabited

namespace IgnoreRules

/-- The rules that ignore nothing. -/
def none : IgnoreRules := ⟨.empty⟩

/-- The rules of a list of patterns. Blanks around a pattern are dropped, and so are blank ones. -/
def ofPatterns (patterns : List String) : Except Failure IgnoreRules := do
  let patterns := (patterns.map Text.trim).filter (!·.isEmpty)
  let rules ← patterns.mapM fun pattern => do
    return (pattern, ← IgnoreRule.ofPattern pattern)
  match Glob.refusal? (rules.filterMap (·.2.glob?)) with
  | .some reason => throw (.input s!"invalid ignore patterns: {reason}")
  | .none => return ⟨.ofList rules⟩

def patterns (r : IgnoreRules) : List String := r.rules.keys

def isEmpty (r : IgnoreRules) : Bool := r.rules.isEmpty

/-- Whether an import path is left out. -/
def ignores (r : IgnoreRules) (path : String) : Bool := r.rules.values.any (·.ignores path)

end IgnoreRules

end DepSolver
