import DepSolver.Proofs.Constraint.Matching
import DepSolver.Proofs.Constraint.Text
import DepSolver.Proofs.Semver.Reading

/-!
Intervals as comparators write them. The intervals of a constraint that was read end at versions
that comparators name, and the text of such an interval is that of at most two comparators, one for
each end.
-/

namespace DepSolver

/-! ### Ends that comparators name -/

/-- A version as comparators name it: it has no build metadata, and its prerelease can be
written. -/
structure Semver.IsNamed (v : Semver) : Prop where
  build : v.build = []
  pre : ∀ field ∈ v.pre, IsField .pre field

theorem Semver.isNamed_release (major minor patch : UInt64) :
    (release major minor patch).IsNamed := ⟨rfl, by simp [release]⟩

namespace Cut

variable {a b : Cut}

def IsNamed (c : Cut) : Prop := ∀ v ∈ c.version?, v.IsNamed

theorem isNamed_of_version?_eq_none (h : a.version? = none) : a.IsNamed := by
  intro v hv
  rw [h] at hv
  cases hv

private theorem isNamed_before {v : Semver} (h : v.IsNamed) : (before v).IsNamed := by
  rintro _ ⟨⟩
  exact h

private theorem isNamed_after {v : Semver} (h : v.IsNamed) : (after v).IsNamed := by
  rintro _ ⟨⟩
  exact h

theorem IsNamed.max (ha : a.IsNamed) (hb : b.IsNamed) : (a.max b).IsNamed := by
  rw [Cut.max]
  split
  · exact hb
  · exact ha

theorem IsNamed.min (ha : a.IsNamed) (hb : b.IsNamed) : (a.min b).IsNamed := by
  rw [Cut.min]
  split
  · exact hb
  · exact ha

end Cut

structure Interval.IsNamed (i : Interval) : Prop where
  lower : i.lower.IsNamed
  upper : i.upper.IsNamed

namespace RangeSet

variable {s t : RangeSet} {l : List Interval} {current : Interval}

/-- The intervals of the set end where comparators name versions. -/
def IsNamed (s : RangeSet) : Prop := ∀ i ∈ s.intervals, i.IsNamed

private theorem isNamed_of_mem_joinFrom (hcurrent : current.IsNamed) (hl : ∀ i ∈ l, i.IsNamed) :
    ∀ i ∈ joinFrom current l, i.IsNamed := by
  induction l generalizing current with
  | nil => simpa [joinFrom] using hcurrent
  | cons next rest ih =>
      obtain ⟨hnext, hrest⟩ := List.forall_mem_cons.mp hl
      rw [joinFrom]
      split
      · exact List.forall_mem_cons.mpr ⟨hcurrent, ih hnext hrest⟩
      · exact ih ⟨hcurrent.lower, hcurrent.upper.max hnext.upper⟩ hrest

theorem isNamed_ofIntervals {prerelease : Bool} (hl : ∀ i ∈ l, i.IsNamed) :
    (ofIntervals l prerelease).IsNamed := by
  have hsort : ∀ i ∈ Sorting.sort compare (l.filter (!·.isEmpty)), i.IsNamed := fun i hi =>
    hl i (List.mem_filter.mp (Sorting.mem_sort.mp hi)).1
  change ∀ i ∈ join _, i.IsNamed
  cases hlist : Sorting.sort compare (l.filter (!·.isEmpty)) with
  | nil => simp [join]
  | cons first rest =>
      rw [hlist] at hsort
      obtain ⟨hfirst, hrest⟩ := List.forall_mem_cons.mp hsort
      exact isNamed_of_mem_joinFrom hfirst hrest

private theorem isNamed_ofInterval (h : current.IsNamed) : (ofInterval current).IsNamed :=
  isNamed_ofIntervals (by simpa using h)

theorem IsNamed.union (hs : s.IsNamed) (ht : t.IsNamed) : (s.union t).IsNamed :=
  isNamed_ofIntervals (List.forall_mem_append.mpr ⟨hs, ht⟩)

theorem IsNamed.inter (hs : s.IsNamed) (ht : t.IsNamed) : (s.inter t).IsNamed := by
  apply isNamed_ofIntervals
  intro i hi
  simp only [List.mem_flatMap, List.mem_map] at hi
  obtain ⟨j, hj, k, hk, rfl⟩ := hi
  exact ⟨(hs j hj).lower.max (ht k hk).lower, (hs j hj).upper.min (ht k hk).upper⟩

end RangeSet

namespace Semver

theorem Comparator.isNamed_interval {c : Comparator} (h : ∀ field ∈ c.pre, IsField .pre field) :
    c.interval.IsNamed := by
  have hbase : c.base.IsNamed := ⟨rfl, h⟩
  have hfamily : c.familyEnd.IsNamed := by
    rw [familyEnd]
    split
    · exact isNamed_release _ _ _
    · exact isNamed_release _ _ _
    · exact hbase
  have hpast : (if c.isComplete then Cut.after c.base else .before c.familyEnd).IsNamed := by
    split
    · exact Cut.isNamed_after hbase
    · exact Cut.isNamed_before hfamily
  have hbefore := Cut.isNamed_before hbase
  have hnone : ∀ cut : Cut, cut.version? = none → cut.IsNamed :=
    fun _ => Cut.isNamed_of_version?_eq_none
  rw [interval]
  cases c.relation with
  | exact | wildcard => exact ⟨hbefore, hpast⟩
  | greater => exact ⟨hpast, hnone _ rfl⟩
  | greaterEq => exact ⟨hbefore, hnone _ rfl⟩
  | less => exact ⟨hnone _ rfl, hbefore⟩
  | lessEq => exact ⟨hnone _ rfl, hpast⟩
  | tilde =>
      refine ⟨hbefore, Cut.isNamed_before ?_⟩
      cases c.minor <;> exact isNamed_release _ _ _
  | caret =>
      refine ⟨hbefore, Cut.isNamed_before ?_⟩
      split <;> exact isNamed_release _ _ _

theorem Requirement.isNamed_ranges {req : Requirement}
    (h : ∀ c ∈ req.comparators, ∀ field ∈ c.pre, IsField .pre field) : req.ranges.IsNamed := by
  have hfull : RangeSet.full.IsNamed := RangeSet.isNamed_ofInterval
    ⟨Cut.isNamed_of_version?_eq_none rfl, Cut.isNamed_of_version?_eq_none rfl⟩
  refine List.foldlRecOn (motive := RangeSet.IsNamed) (req.comparators.map (·.interval)) _ hfull
    fun set hset i hi => ?_
  obtain ⟨c, hc, rfl⟩ := List.mem_map.mp hi
  exact hset.inter (RangeSet.isNamed_ofInterval (Comparator.isNamed_interval (h c hc)))

end Semver

theorem Constraint.exists_isNamed_of_parse {input : String} {c : Constraint}
    (h : parse input = .ok c) : c = any ∨ ∃ set : RangeSet, set.IsNamed ∧ c = ofRanges set := by
  by_cases hblank : Text.strip Text.isBlank input.toList = [] ∨
      Text.strip Text.isBlank input.toList = ['*']
  · left
    simp only [parse, Bool.or_eq_true, decide_eq_true_eq, if_pos hblank] at h
    exact (Except.ok.inj h).symm
  · rw [not_or] at hblank
    obtain ⟨reqs, hreqs, rfl⟩ := exists_requirements_of_parse h hblank.1 hblank.2
    refine .inr ⟨_, ?_, rfl⟩
    refine List.foldlRecOn (motive := RangeSet.IsNamed) _ _
      (RangeSet.isNamed_ofIntervals (by simp)) fun set hset next hnext => hset.union ?_
    obtain ⟨req, hreq, rfl⟩ := List.mem_map.mp hnext
    obtain ⟨text, -, htext⟩ := (mem_iff_of_mapM_eq_ok hreqs).mp hreq
    exact Semver.Requirement.isNamed_ranges (Semver.Requirement.isField_of_parseChars htext)

/-! ### Requirements of one interval -/

namespace Semver.Comparator

/-- The comparator of a whole version. -/
def ofVersion (relation : Relation) (v : Semver) : Comparator :=
  ⟨relation, v.major, some v.minor, some v.patch, v.pre⟩

variable {relation : Relation} {v : Semver}

private theorem base_ofVersion (h : v.build = []) : (ofVersion relation v).base = v := by
  obtain ⟨major, minor, patch, pre, build⟩ := v
  cases h
  rfl

theorem isWhole_ofVersion (hv : v.IsNamed) (hrelation : relation ≠ .wildcard) :
    (ofVersion relation v).IsWhole := ⟨hrelation, rfl, hv.pre⟩

theorem text_ofVersion (h : v.build = []) (start : String) (hstart : start.toList = relation.sign) :
    (ofVersion relation v).text = (start ++ toString v).toList := by
  rw [text, base_ofVersion h, String.toList_append, hstart]
  rfl

theorem interval_ofVersion (h : v.build = []) :
    (ofVersion .exact v).interval = ⟨.before v, .after v⟩ ∧
      (ofVersion .greaterEq v).interval = ⟨.before v, .top⟩ ∧
      (ofVersion .greater v).interval = ⟨.after v, .top⟩ ∧
      (ofVersion .less v).interval = ⟨.bottom, .before v⟩ ∧
      (ofVersion .lessEq v).interval = ⟨.bottom, .after v⟩ := by
  obtain ⟨major, minor, patch, pre, build⟩ := v
  cases h
  exact ⟨rfl, rfl, rfl, rfl, rfl⟩

end Semver.Comparator

namespace Interval

open Semver (Comparator Requirement)

variable {i : Interval} {a c : Cut} {s : String} {l : List Comparator}

/-- An end of an interval is written by at most one comparator, whose interval has no other end. -/
structure WritesEnd (l : List Comparator) (word : Option String) (admits : Cut → Prop)
    (a : Cut) : Prop where
  whole : ∀ k ∈ l, k.IsWhole
  length_le : l.length ≤ 1
  text : l.map (·.text) = word.toList.map String.toList
  covers : ∀ c, c ≠ .top → ((∀ k ∈ l, k.interval.Covers c) ↔ admits c)
  names : (l.any fun k => k.interval.namesPrerelease) = a.version?.any Semver.isPrerelease

theorem covers_from_iff (hc : c ≠ .top) : (Interval.mk a .top).Covers c ↔ (compare a c).isLE := by
  have htop : compare c .top = .lt := by
    cases c <;> first | rfl | exact absurd rfl hc
  exact and_iff_left htop

theorem covers_to_iff : (Interval.mk .bottom a).Covers c ↔ compare c a = .lt := by
  have hbottom : (compare Cut.bottom c).isLE = true := by
    cases c <;> rfl
  exact and_iff_right hbottom

private theorem namesPrerelease_from :
    (Interval.mk a .top).namesPrerelease = a.version?.any Semver.isPrerelease := Bool.or_false _

private theorem namesPrerelease_to :
    (Interval.mk .bottom a).namesPrerelease = a.version?.any Semver.isPrerelease := Bool.false_or _

theorem writesEnd_nil {admits : Cut → Prop} (ha : a.version? = none)
    (hadmits : ∀ c, c ≠ .top → admits c) : WritesEnd [] none admits a where
  whole := by simp
  length_le := Nat.zero_le 1
  text := rfl
  covers c hc := by simpa using hadmits c hc
  names := by rw [ha]; rfl

theorem writesEnd_singleton {admits : Cut → Prop} {k : Comparator} (hk : k.IsWhole)
    (htext : k.text = s.toList) (hcovers : ∀ c, c ≠ .top → (k.interval.Covers c ↔ admits c))
    (hnames : k.interval.namesPrerelease = a.version?.any Semver.isPrerelease) :
    WritesEnd [k] (some s) admits a where
  whole := by simpa using hk
  length_le := Nat.le_refl 1
  text := congrArg (fun text => [text]) htext
  covers c hc := by rw [List.forall_mem_singleton, hcovers c hc]
  names := by rw [List.any_cons, List.any_nil, Bool.or_false, hnames]

private theorem exists_writesEnd_lower (ha : a.IsNamed) (htop : a ≠ .top) :
    ∃ l, WritesEnd l (lowerText? a) (fun c => (compare a c).isLE) a := by
  have hwrites : ∀ k : Comparator, k.IsWhole → k.interval = ⟨a, .top⟩ → ∀ s, k.text = s.toList →
      WritesEnd [k] (some s) (fun c => (compare a c).isLE) a := fun k hk hinterval s htext =>
    writesEnd_singleton hk htext (fun c hc => by rw [hinterval, covers_from_iff hc])
      (by rw [hinterval, namesPrerelease_from])
  cases a with
  | top => exact absurd rfl htop
  | bottom => exact ⟨[], writesEnd_nil rfl fun c _ => by cases c <;> rfl⟩
  | before v =>
      have hv : v.IsNamed := ha v rfl
      exact ⟨_, hwrites _ (Comparator.isWhole_ofVersion hv (by decide))
        (Comparator.interval_ofVersion hv.build).2.1 _
        (Comparator.text_ofVersion hv.build ">=" rfl)⟩
  | after v =>
      have hv : v.IsNamed := ha v rfl
      exact ⟨_, hwrites _ (Comparator.isWhole_ofVersion hv (by decide))
        (Comparator.interval_ofVersion hv.build).2.2.1 _
        (Comparator.text_ofVersion hv.build ">" rfl)⟩

private theorem exists_writesEnd_upper (ha : a.IsNamed) (hbottom : a ≠ .bottom) :
    ∃ l, WritesEnd l (upperText? a) (fun c => compare c a = .lt) a := by
  have hwrites : ∀ k : Comparator, k.IsWhole → k.interval = ⟨.bottom, a⟩ → ∀ s,
      k.text = s.toList → WritesEnd [k] (some s) (fun c => compare c a = .lt) a :=
    fun k hk hinterval s htext =>
      writesEnd_singleton hk htext (fun c _ => by rw [hinterval, covers_to_iff])
        (by rw [hinterval, namesPrerelease_to])
  cases a with
  | bottom => exact absurd rfl hbottom
  | top =>
      refine ⟨[], writesEnd_nil rfl fun c hc => ?_⟩
      cases c <;> first | rfl | exact absurd rfl hc
  | before v =>
      have hv : v.IsNamed := ha v rfl
      exact ⟨_, hwrites _ (Comparator.isWhole_ofVersion hv (by decide))
        (Comparator.interval_ofVersion hv.build).2.2.2.1 _
        (Comparator.text_ofVersion hv.build "<" rfl)⟩
  | after v =>
      have hv : v.IsNamed := ha v rfl
      exact ⟨_, hwrites _ (Comparator.isWhole_ofVersion hv (by decide))
        (Comparator.interval_ofVersion hv.build).2.2.2.2 _
        (Comparator.text_ofVersion hv.build "<=" rfl)⟩

/-- The text of an interval is that of comparators that say the same. -/
structure IsWrittenAs (i : Interval) (l : List Comparator) : Prop where
  whole : ∀ k ∈ l, k.IsWhole
  nonempty : l ≠ []
  length_le : l.length ≤ 2
  text : (toString i).toList = Comparator.textAll l
  covers : ∀ c, c ≠ .top → ((∀ k ∈ l, k.interval.Covers c) ↔ i.Covers c)
  names : (l.any fun k => k.interval.namesPrerelease) = i.namesPrerelease

theorem exists_isWrittenAs (hi : i.IsNamed) (hlt : compare i.lower i.upper = .lt)
    (hfull : i ≠ ⟨.bottom, .top⟩) : ∃ l, i.IsWrittenAs l := by
  cases hpoint : i.point? with
  | some v =>
      obtain ⟨rfl, htext⟩ := toString_eq_of_point? hpoint
      have hv : v.IsNamed := hi.lower v rfl
      have hinterval := (Comparator.interval_ofVersion hv.build).1
      exact ⟨[.ofVersion .exact v], {
        whole := by simpa using Comparator.isWhole_ofVersion hv (by decide)
        nonempty := List.cons_ne_nil _ _
        length_le := Nat.le_succ 1
        text := by
          rw [htext, Comparator.textAll_singleton, Comparator.text_ofVersion hv.build "=" rfl]
        covers := by simp [hinterval]
        names := by simp [hinterval] }⟩
  | none =>
      -- Each end at a version has its comparator; one of them is at a version, as `i` is not full.
      have htext := toString_eq_of_point?_eq_none hpoint hfull
      obtain ⟨htop, hbottom⟩ := ne_top_and_ne_bottom hlt
      obtain ⟨l, hlower⟩ := exists_writesEnd_lower hi.lower htop
      obtain ⟨l', hupper⟩ := exists_writesEnd_upper hi.upper hbottom
      refine ⟨l ++ l', {
        whole := List.forall_mem_append.mpr ⟨hlower.whole, hupper.whole⟩
        nonempty := fun hnil => hfull ?_
        length_le := ?_
        text := ?_
        covers := fun c hc => ?_
        names := ?_ }⟩
      · obtain ⟨rfl, rfl⟩ := List.append_eq_nil_iff.mp hnil
        have hnone : lowerText? i.lower = none := by simpa using hlower.text.symm
        have hnone' : upperText? i.upper = none := by simpa using hupper.text.symm
        exact eq_full_of_no_text hlt hnone hnone'
      · have hlength := Nat.add_le_add hlower.length_le hupper.length_le
        rwa [List.length_append]
      · rw [htext, String.toList_intercalate, List.map_append, ← hlower.text, ← hupper.text,
          ← List.map_append]
        rfl
      · rw [List.forall_mem_append, hlower.covers c hc, hupper.covers c hc]
        rfl
      · rw [List.any_append, hlower.names, hupper.names]
        rfl

theorem Covers.ne_top (h : i.Covers c) : c ≠ .top := by
  rintro rfl
  cases hupper : i.upper <;> rw [Covers, hupper] at h <;> cases h.2

theorem IsWrittenAs.ranges (h : i.IsWrittenAs l) : (Requirement.mk l).ranges = .ofInterval i := by
  have hfull : ∀ c, RangeSet.full.Covers c ↔ c ≠ .top := fun c => by
    rw [RangeSet.full, RangeSet.covers_ofInterval]
    exact ⟨Covers.ne_top, fun hc => (covers_from_iff hc).mpr (by cases c <;> rfl)⟩
  apply RangeSet.ext
  · intro c
    refine RangeSet.covers_foldl_inter.trans ?_
    rw [hfull, List.forall_mem_map, RangeSet.covers_ofInterval]
    constructor
    · rintro ⟨hc, hall⟩
      exact (h.covers c hc).mp hall
    · intro hcovers
      exact ⟨hcovers.ne_top, (h.covers c hcovers.ne_top).mpr hcovers⟩
  · exact List.any_map.trans h.names

end Interval

end DepSolver
