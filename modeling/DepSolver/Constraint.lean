import DepSolver.RangeSet
import DepSolver.Version

/-!
Constraints on the version of a project. A constraint that admits nothing has one form, and every
other one is a selector with at most one required revision.
-/

namespace DepSolver

/-- The versions that a constraint admits, apart from its revision. -/
inductive Selector
  | any
  | ranges (set : RangeSet) (nonempty : set.isEmpty = false)
  | branch (name : String)
  | tag (name : String)
deriving DecidableEq, Inhabited

/-- A condition on versions. -/
inductive Constraint
  | nothing
  | admits (selector : Selector) (revision : Option Revision)
deriving DecidableEq, Inhabited

namespace Selector

/-- The selector of a set of ranges, unless the set is empty. -/
def ofRanges? (set : RangeSet) : Option Selector :=
  if h : set.isEmpty = false then some (.ranges set h) else none

/-- The versions that both selectors admit; none if selectors of different kinds meet. -/
def inter? : Selector → Selector → Option Selector
  | any, s => some s
  | s, any => some s
  | ranges a _, ranges b _ => ofRanges? (a.inter b)
  | branch a, branch b => if a = b then some (branch a) else none
  | tag a, tag b => if a = b then some (tag a) else none
  | _, _ => none

def admits : Selector → Version → Bool
  | any, _ => true
  | ranges set _, .semver v _ _ => set.contains v
  | branch want, .branch name _ => want = name
  | tag want, .tag name _ => want = name
  | _, _ => false

end Selector

namespace Constraint

/-- The constraint that every version satisfies. -/
def any : Constraint := .admits .any none

/-- The constraint of a set of ranges. -/
def ofRanges (set : RangeSet) : Constraint :=
  match Selector.ofRanges? set with
  | some selector => .admits selector none
  | none => .nothing

def branch (name : String) : Constraint := .admits (.branch name) none

def tag (name : String) : Constraint := .admits (.tag name) none

/-- The constraint that a version with a given underlying revision satisfies. -/
def revision (r : Revision) : Constraint := .admits .any (some r)

theorem ofInterval_exact_isEmpty (v : Semver) :
    (RangeSet.ofInterval ⟨.before v, .after v⟩).isEmpty = false := by
  have lt : compare (Cut.before v) (Cut.after v) = .lt := by
    show Cut.compare _ _ = .lt
    simp [Cut.compare, compareLex, compareOn, Cut.key, Std.ReflOrd.compare_self]
    rfl
  simp [RangeSet.isEmpty, RangeSet.ofInterval, RangeSet.ofIntervals, RangeSet.normalize,
    Interval.isEmpty, lt, Sorting.sort, Sorting.insert, RangeSet.join, RangeSet.joinFrom]

/-- The constraint that only a version itself satisfies, with its revision if it has one. -/
def exact (v : Version) : Constraint :=
  let selector : Selector :=
    match v with
    | .semver version _ _ =>
        .ranges (.ofInterval ⟨.before version, .after version⟩) (ofInterval_exact_isEmpty version)
    | .tag name _ => .tag name
    | .branch name _ => .branch name
    | .revision _ => .any
  .admits selector v.underlying

/-- The revision that both sides require, if they do not require two different ones. -/
def interRevision? : Option Revision → Option Revision → Option (Option Revision)
  | some a, some b => if a = b then some (some a) else none
  | some a, none => some (some a)
  | none, b => some b

/-- The constraint that a version satisfies if it satisfies both. -/
def inter : Constraint → Constraint → Constraint
  | .admits s r, .admits t q =>
      match interRevision? r q, s.inter? t with
      | some revision, some selector => .admits selector revision
      | _, _ => .nothing
  | _, _ => .nothing

/-- The constraint that a version satisfies if it satisfies all. -/
def interAll (l : List Constraint) : Constraint := l.foldl inter any

/-- Require a revision in addition. -/
def withRevision (c : Constraint) (r : Revision) : Constraint := c.inter (revision r)

def isNothing (c : Constraint) : Bool := c = nothing

def isAny (c : Constraint) : Bool := c = any

/-- The revision that a constraint requires. -/
def revision? : Constraint → Option Revision
  | .nothing => none
  | .admits _ r => r

/-- Whether a version satisfies a constraint. -/
def satisfiedBy (c : Constraint) (v : Version) : Bool :=
  match c with
  | .nothing => false
  | .admits selector r => (r.isNone || v.underlying = r) && selector.admits v

/-- The text of a constraint. -/
protected def toString : Constraint → String
  | .nothing => "<none>"
  | .admits .any none => "*"
  | .admits .any (some r) => s!"rev {r.text}"
  | .admits selector r =>
      let text := match selector with
        | .any => ""
        | .ranges set _ => toString set
        | .branch name => s!"branch {name}"
        | .tag name => s!"tag {name}"
      match r with
      | none => text
      | some r => s!"{text} @ {r.text}"

instance : ToString Constraint := ⟨Constraint.toString⟩

end Constraint

end DepSolver
