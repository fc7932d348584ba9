import DepSolver.Semver.Basic
import DepSolver.Sorting

/-!
Sets of semantic versions as unions of intervals, in one canonical form: the intervals are not
empty, and each ends before the next begins. An end of an interval is a cut, a place in the order
of versions just before a version, just after it, or beyond all versions; an interval is the
stretch between two cuts.
-/

namespace DepSolver

/-- A place in the order of versions. -/
inductive Cut
  | bottom
  | before (v : Semver)
  | after (v : Semver)
  | top
deriving DecidableEq, Inhabited

namespace Cut

/-- A cut as a level, a version and a side, in the order of which cuts are ordered. -/
def key : Cut → Nat × Option Semver × Bool
  | bottom => (0, none, false)
  | before v => (1, some v, false)
  | after v => (1, some v, true)
  | top => (2, none, false)

/-- The order of cuts along the versions. -/
protected def compare : Cut → Cut → Ordering :=
  compareLex (compareOn (·.key.1)) (compareLex (compareOn (·.key.2.1)) (compareOn (·.key.2.2)))

instance : Ord Cut := ⟨Cut.compare⟩

instance : Std.TransOrd Cut := by
  show Std.TransCmp Cut.compare
  unfold Cut.compare
  infer_instance

/-- The version at a cut. -/
def version? : Cut → Option Semver
  | before v | after v => some v
  | bottom | top => none

/-- The cut that lies later. -/
def max (a b : Cut) : Cut := if compare a b = .lt then b else a

/-- The cut that lies earlier. -/
def min (a b : Cut) : Cut := if compare a b = .gt then b else a

end Cut

/-- The versions between two cuts. -/
structure Interval where
  lower : Cut
  upper : Cut
deriving DecidableEq, Inhabited

namespace Interval

/-- Whether the ends leave nothing between them. -/
def isEmpty (i : Interval) : Bool := compare i.lower i.upper != .lt

def contains (i : Interval) (v : Semver) : Bool :=
  compare i.lower (.before v) != .gt && compare (.before v) i.upper == .lt

def inter (i j : Interval) : Interval := ⟨i.lower.max j.lower, i.upper.min j.upper⟩

/-- Whether an end of the interval is at a prerelease. -/
def namesPrerelease (i : Interval) : Bool :=
  i.lower.version?.any Semver.isPrerelease || i.upper.version?.any Semver.isPrerelease

/-- The order by lower ends and then by upper ends. -/
protected def compare : Interval → Interval → Ordering :=
  compareLex (compareOn lower) (compareOn upper)

instance : Ord Interval := ⟨Interval.compare⟩

instance : Std.TransOrd Interval :=
  inferInstanceAs (Std.TransCmp (compareLex (compareOn lower) (compareOn upper)))

/-- The text of a lower end; none at the bottom. -/
def lowerText? : Cut → Option String
  | .bottom | .top => none
  | .before v => some s!">={v}"
  | .after v => some s!">{v}"

/-- The text of an upper end; none at the top. -/
def upperText? : Cut → Option String
  | .bottom | .top => none
  | .before v => some s!"<{v}"
  | .after v => some s!"<={v}"

/-- The text of an interval as a version requirement. -/
protected def toString (i : Interval) : String :=
  match i.lower, i.upper with
  | .bottom, .top => "*"
  | lower, upper =>
      let ends := ", ".intercalate ((lowerText? lower).toList ++ (upperText? upper).toList)
      match lower, upper with
      | .before lo, .after hi => if lo = hi then s!"={lo}" else ends
      | _, _ => ends

instance : ToString Interval := ⟨Interval.toString⟩

end Interval

/-- The canonical form of a union: no interval is empty, and each ends before the next begins. -/
structure Canonical (l : List Interval) : Prop where
  nonempty : ∀ i ∈ l, compare i.lower i.upper = .lt
  apart : l.Pairwise fun i j => compare i.upper j.lower = .lt

/-- A set of versions: a canonical union of intervals, from which prereleases are left out unless
the set admits them. -/
structure RangeSet where
  intervals : List Interval
  prerelease : Bool
  canonical : Canonical intervals
deriving DecidableEq

namespace RangeSet

/-- Join to `current` the intervals that begin no later than it ends; the intervals come in order
of their lower ends. -/
def joinFrom (current : Interval) : List Interval → List Interval
  | [] => [current]
  | next :: rest =>
      if compare current.upper next.lower = .lt then current :: joinFrom next rest
      else joinFrom ⟨current.lower, current.upper.max next.upper⟩ rest

/-- Join the intervals that overlap or touch; the intervals come in order of their lower ends. -/
def join : List Interval → List Interval
  | [] => []
  | first :: rest => joinFrom first rest

/-- The canonical form of a union of intervals. -/
def normalize (l : List Interval) : List Interval :=
  join (Sorting.sort compare (l.filter (!·.isEmpty)))

theorem joinFrom_canonical {current : Interval} {l : List Interval}
    (nonempty : ∀ i ∈ current :: l, compare i.lower i.upper = .lt)
    (sorted : (current :: l).Pairwise fun i j => (compare i.lower j.lower).isLE) :
    Canonical (joinFrom current l) ∧
      ∀ i ∈ joinFrom current l, (compare current.lower i.lower).isLE := by
  induction l generalizing current with
  | nil =>
      refine ⟨⟨by simpa [joinFrom] using nonempty, by simp [joinFrom]⟩, ?_⟩
      simp [joinFrom, Std.ReflOrd.compare_self]
  | cons next rest ih =>
      obtain ⟨fromCurrent, sortedRest⟩ := List.pairwise_cons.1 sorted
      have nonemptyRest : ∀ i ∈ next :: rest, compare i.lower i.upper = .lt :=
        fun i mem => nonempty i (List.mem_cons_of_mem _ mem)
      have nonemptyCurrent := nonempty current (List.mem_cons_self ..)
      simp only [joinFrom]
      split
      · rename_i gap
        obtain ⟨canonical, later⟩ := ih nonemptyRest sortedRest
        have after : ∀ i ∈ joinFrom next rest, compare current.upper i.lower = .lt :=
          fun i mem => Std.TransCmp.lt_of_lt_of_isLE gap (later i mem)
        refine ⟨⟨?_, List.pairwise_cons.2 ⟨after, canonical.apart⟩⟩, ?_⟩
        · intro i mem
          rcases List.mem_cons.1 mem with rfl | mem
          · exact nonemptyCurrent
          · exact canonical.nonempty i mem
        · intro i mem
          rcases List.mem_cons.1 mem with rfl | mem
          · simp [Std.ReflOrd.compare_self]
          · exact Std.TransCmp.isLE_trans (fromCurrent next (List.mem_cons_self ..)) (later i mem)
      · have notEmpty : compare current.lower (current.upper.max next.upper) = .lt := by
          unfold Cut.max
          split
          · rename_i lt
            exact Std.TransCmp.lt_trans nonemptyCurrent lt
          · exact nonemptyCurrent
        refine @ih ⟨current.lower, current.upper.max next.upper⟩ ?_ ?_
        · intro i mem
          rcases List.mem_cons.1 mem with rfl | mem
          · exact notEmpty
          · exact nonemptyRest i (List.mem_cons_of_mem _ mem)
        · refine List.pairwise_cons.2 ⟨fun i mem => ?_, (List.pairwise_cons.1 sortedRest).2⟩
          exact fromCurrent i (List.mem_cons_of_mem _ mem)

theorem lower_le_of_compare_le {i j : Interval} (le : (compare i j).isLE) :
    (compare i.lower j.lower).isLE := by
  have : compare i j = (compare i.lower j.lower).then (compare i.upper j.upper) := rfl
  cases h : compare i.lower j.lower <;> simp_all

theorem normalize_canonical (l : List Interval) : Canonical (normalize l) := by
  unfold normalize
  have nonempty : ∀ i ∈ Sorting.sort compare (l.filter (!·.isEmpty)),
      compare i.lower i.upper = .lt := by
    intro i mem
    have := (List.mem_filter.1 (Sorting.mem_sort.1 mem)).2
    simpa [Interval.isEmpty] using this
  have sorted := (@Sorting.sort_pairwise _ compare _ (l.filter (!·.isEmpty))).imp
    lower_le_of_compare_le
  cases h : Sorting.sort compare (l.filter (!·.isEmpty)) with
  | nil => exact ⟨by simp [join], by simp [join]⟩
  | cons first rest =>
      rw [h] at nonempty sorted
      exact (joinFrom_canonical nonempty sorted).1

/-- The union of a list of intervals. -/
def ofIntervals (l : List Interval) (prerelease : Bool) : RangeSet :=
  ⟨normalize l, prerelease, normalize_canonical l⟩

/-- The set without versions. -/
def empty : RangeSet := ofIntervals [] false

/-- The versions of an interval; prereleases among them if an end of it is at one. -/
def ofInterval (i : Interval) : RangeSet := ofIntervals [i] i.namesPrerelease

/-- The set of all releases. -/
def full : RangeSet := ofInterval ⟨.bottom, .top⟩

def isEmpty (s : RangeSet) : Bool := s.intervals.isEmpty

def contains (s : RangeSet) (v : Semver) : Bool :=
  (!v.isPrerelease || s.prerelease) && s.intervals.any (·.contains v)

/-- The versions of both sets; prereleases are admitted if both sets admit them. -/
def inter (s t : RangeSet) : RangeSet :=
  ofIntervals (s.intervals.flatMap fun i => t.intervals.map i.inter) (s.prerelease && t.prerelease)

/-- The versions of either set; prereleases are admitted if one of the sets admits them. -/
def union (s t : RangeSet) : RangeSet :=
  ofIntervals (s.intervals ++ t.intervals) (s.prerelease || t.prerelease)

/-- The text of a set as alternatives between `||`. -/
protected def toString (s : RangeSet) : String :=
  if s.isEmpty then "<none>"
  else " || ".intercalate (s.intervals.map toString)

instance : ToString RangeSet := ⟨RangeSet.toString⟩

instance : Inhabited RangeSet := ⟨empty⟩

end RangeSet

end DepSolver
