import DepSolver.Constraint.Parser
import DepSolver.Proofs.Constraint
import DepSolver.Proofs.Semver.Parser

/-!
Which constraints no version satisfies. Whether an interval holds a version depends on where the
first version lies that could be in it: from a prerelease on that is its release, if prereleases are
left out, and before the first version there is nothing. An interval that ends before that holds
none, though its ends are in order. So a constraint may exclude every version without being the
empty one.
-/

namespace DepSolver

/-! ### The first version after a cut -/

namespace Cut

variable {c : Cut} {v w : Semver} {prerelease : Bool}

theorem compare_some_some (v w : Semver) : compare (some v) (some w) = compare v w := rfl

theorem compare_before_before (v w : Semver) : compare (before v) (before w) = compare v w := by
  change (compare (some v) (some w)).then .eq = _
  rw [compare_some_some, Ordering.then_eq]

theorem isLE_after_before : (compare (after v) (before w)).isLE = true ↔ compare v w = .lt := by
  change ((compare (some v) (some w)).then .gt).isLE = true ↔ _
  rw [compare_some_some]
  cases compare v w <;> simp

/-- The first version after a cut, prereleases taken into account only if they are admitted. -/
def firstVersion (prerelease : Bool) : Cut → Semver
  | bottom | top => .first prerelease
  | before v => if v.isPrerelease && !prerelease then v.released else v
  | after v => if v.isPrerelease && !prerelease then v.released else v.successor

/-- The version at the cut can be written. -/
def IsValid (c : Cut) : Prop := ∀ v ∈ c.version?, v.IsValid

theorem IsValid.firstVersion (h : c.IsValid) (prerelease : Bool) :
    (c.firstVersion prerelease).IsValid := by
  cases c with
  | bottom => exact Semver.isValid_first prerelease
  | top => exact Semver.isValid_first prerelease
  | before v =>
      rw [Cut.firstVersion]
      split
      · exact Semver.isValid_release _ _ _
      · exact h v rfl
  | after v =>
      rw [Cut.firstVersion]
      split
      · exact Semver.isValid_release _ _ _
      · exact (h v rfl).successor

private theorem admits_firstVersion (c : Cut) (prerelease : Bool) :
    (c.firstVersion prerelease).isPrerelease = false ∨ prerelease = true := by
  cases prerelease with
  | true => exact .inr rfl
  | false =>
      left
      cases c with
      | bottom => rfl
      | top => rfl
      | before v =>
          rw [Cut.firstVersion]
          split <;> simp_all [Semver.released, Semver.release, Semver.isPrerelease]
      | after v =>
          rw [Cut.firstVersion]
          split <;> simp_all [Semver.released, Semver.release, Semver.successor,
            Semver.isPrerelease]

theorem isLE_before_iff (hne : c ≠ top) (hw : w.IsValid)
    (h : w.isPrerelease = false ∨ prerelease = true) :
    (compare c (before w)).isLE = true ↔ (compare (c.firstVersion prerelease) w).isLE = true := by
  have hrelease : ∀ v : Semver, (v.isPrerelease && !prerelease) = true →
      v.isPrerelease = true ∧ w.isPrerelease = false := fun v hv => by
    rw [Bool.and_eq_true, Bool.not_eq_true'] at hv
    exact ⟨hv.1, h.resolve_right (by simp [hv.2])⟩
  cases c with
  | bottom => exact iff_of_true rfl (Semver.isLE_first hw h)
  | top => exact absurd rfl hne
  | before v =>
      rw [compare_before_before, Cut.firstVersion]
      split
      · rename_i hv
        obtain ⟨hv, hw⟩ := hrelease v hv
        exact (Semver.compare_released hv hw).2
      · rfl
  | after v =>
      rw [isLE_after_before, Cut.firstVersion]
      split
      · rename_i hv
        obtain ⟨hv, hw⟩ := hrelease v hv
        exact (Semver.compare_released hv hw).1
      · exact Semver.compare_successor hw

end Cut

/-! ### Intervals without versions -/

/-- The interval ends before the first version that could be in it. -/
def Interval.IsVacant (i : Interval) (prerelease : Bool) : Prop :=
  (compare i.upper (.before (i.lower.firstVersion prerelease))).isLE = true

instance (i : Interval) (prerelease : Bool) : Decidable (i.IsVacant prerelease) :=
  inferInstanceAs (Decidable (_ = true))

theorem Interval.not_isVacant_iff {i : Interval} {prerelease : Bool} (hlower : i.lower.IsValid)
    (hne : i.lower ≠ .top) :
    ¬ i.IsVacant prerelease ↔ ∃ v : Semver, v.IsValid ∧
      (v.isPrerelease = false ∨ prerelease = true) ∧ i.Covers (.before v) := by
  have hfirst : ¬ i.IsVacant prerelease ↔
      compare (.before (i.lower.firstVersion prerelease)) i.upper = .lt := by
    rw [IsVacant, Bool.not_eq_true, Ordering.isLE_eq_false, Std.OrientedCmp.gt_iff_lt]
  rw [hfirst]
  constructor
  · intro hlt
    have hvalid := hlower.firstVersion prerelease
    have hadmits := i.lower.admits_firstVersion prerelease
    refine ⟨_, hvalid, hadmits, ?_, hlt⟩
    rw [Cut.isLE_before_iff hne hvalid hadmits]
    exact Std.ReflOrd.isLE_rfl
  · rintro ⟨v, hvalid, hadmits, hbegin, hend⟩
    rw [Cut.isLE_before_iff hne hvalid hadmits, ← Cut.compare_before_before] at hbegin
    exact Std.TransCmp.lt_of_isLE_of_lt hbegin hend

namespace RangeSet

variable {s t : RangeSet} {l : List Interval} {i : Interval}

def IsValid (s : RangeSet) : Prop := ∀ i ∈ s.intervals, i.lower.IsValid

def IsVacant (s : RangeSet) : Prop := ∀ i ∈ s.intervals, i.IsVacant s.prerelease

instance (s : RangeSet) : Decidable s.IsVacant :=
  inferInstanceAs (Decidable (∀ i ∈ s.intervals, _))

theorem isVacant_iff (hs : s.IsValid) :
    s.IsVacant ↔ ∀ v : Semver, v.IsValid → s.contains v = false := by
  have hne : ∀ i ∈ s.intervals, i.lower ≠ .top := by
    intro i hi htop
    have hlt := s.canonical.nonempty i hi
    rw [htop] at hlt
    cases hupper : i.upper <;> rw [hupper] at hlt <;> cases hlt
  have hcontains : ∀ v, s.contains v = false ↔
      ¬ ((v.isPrerelease = false ∨ s.prerelease = true) ∧ s.Covers (.before v)) := fun v => by
    rw [← contains_iff, Bool.not_eq_true]
  simp only [hcontains, Covers]
  constructor
  · rintro h v hv ⟨hadmits, i, hi, hcovers⟩
    exact (Interval.not_isVacant_iff (hs i hi) (hne i hi)).mpr ⟨v, hv, hadmits, hcovers⟩ (h i hi)
  · intro h i hi
    by_contra hvacant
    obtain ⟨v, hv, hadmits, hcovers⟩ :=
      (Interval.not_isVacant_iff (hs i hi) (hne i hi)).mp hvacant
    exact h v hv ⟨hadmits, i, hi, hcovers⟩

/-! ### Ends of intervals -/

private theorem exists_lower_of_mem_joinFrom {current : Interval} (h : i ∈ joinFrom current l) :
    ∃ j ∈ current :: l, i.lower = j.lower := by
  induction l generalizing current with
  | nil => exact ⟨i, h, rfl⟩
  | cons next rest ih =>
      rw [joinFrom] at h
      split at h
      · rcases List.mem_cons.mp h with rfl | h
        · exact ⟨i, List.mem_cons_self, rfl⟩
        · obtain ⟨j, hj, heq⟩ := ih h
          exact ⟨j, List.mem_cons_of_mem _ hj, heq⟩
      · obtain ⟨j, hj, heq⟩ := ih h
        rcases List.mem_cons.mp hj with rfl | hj
        · exact ⟨current, List.mem_cons_self, heq⟩
        · exact ⟨j, List.mem_cons_of_mem _ (List.mem_cons_of_mem _ hj), heq⟩

private theorem exists_lower_of_mem_normalize (h : i ∈ normalize l) : ∃ j ∈ l, i.lower = j.lower
    := by
  have hsort : ∀ j ∈ Sorting.sort compare (l.filter (!·.isEmpty)), j ∈ l := fun j hj =>
    (List.mem_filter.mp (Sorting.mem_sort.mp hj)).1
  rw [normalize] at h
  cases hlist : Sorting.sort compare (l.filter (!·.isEmpty)) with
  | nil =>
      rw [hlist] at h
      cases h
  | cons first rest =>
      rw [hlist] at h
      obtain ⟨j, hj, heq⟩ := exists_lower_of_mem_joinFrom h
      exact ⟨j, hsort j (hlist ▸ hj), heq⟩

theorem isValid_ofIntervals {prerelease : Bool} (h : ∀ i ∈ l, i.lower.IsValid) :
    (ofIntervals l prerelease).IsValid := by
  intro i hi
  obtain ⟨j, hj, heq⟩ := exists_lower_of_mem_normalize hi
  rw [heq]
  exact h j hj

theorem isValid_ofInterval (h : i.lower.IsValid) : (ofInterval i).IsValid :=
  isValid_ofIntervals (by simpa using h)

theorem IsValid.union (hs : s.IsValid) (ht : t.IsValid) : (s.union t).IsValid :=
  isValid_ofIntervals (List.forall_mem_append.mpr ⟨hs, ht⟩)

theorem IsValid.inter (hs : s.IsValid) (ht : t.IsValid) : (s.inter t).IsValid := by
  apply isValid_ofIntervals
  intro i hi
  simp only [List.mem_flatMap, List.mem_map] at hi
  obtain ⟨j, hj, k, hk, rfl⟩ := hi
  rw [Interval.inter, Cut.max]
  split
  · exact ht k hk
  · exact hs j hj

end RangeSet

namespace Semver

theorem Comparator.isValid_lower_interval {c : Comparator}
    (h : ∀ field ∈ c.pre, IsField .pre field) : c.interval.lower.IsValid := by
  have hbase : c.base.IsValid := ⟨h, by simp [base]⟩
  have hfamily : c.familyEnd.IsValid := by
    rw [familyEnd]
    split
    · exact isValid_release _ _ _
    · exact isValid_release _ _ _
    · exact hbase
  have hbefore : ∀ {v : Semver}, v.IsValid → (Cut.before v).IsValid := fun hv w hw => by
    obtain rfl := Option.some.inj hw
    exact hv
  have hbottom : Cut.bottom.IsValid := fun w hw => by cases hw
  rw [interval]
  cases c.relation with
  | greater =>
      dsimp only
      split
      · exact hbefore hbase
      · exact hbefore hfamily
  | less => exact hbottom
  | lessEq => exact hbottom
  | _ => exact hbefore hbase

theorem Requirement.isValid_ranges {req : Requirement}
    (h : ∀ c ∈ req.comparators, ∀ field ∈ c.pre, IsField .pre field) : req.ranges.IsValid := by
  have hfull : RangeSet.full.IsValid := RangeSet.isValid_ofInterval fun w hw => by cases hw
  refine List.foldlRecOn (motive := RangeSet.IsValid) (req.comparators.map (·.interval)) _ hfull
    fun set hset i hi => ?_
  obtain ⟨c, hc, rfl⟩ := List.mem_map.mp hi
  exact hset.inter (RangeSet.isValid_ofInterval (Comparator.isValid_lower_interval (h c hc)))

end Semver

/-! ### Constraints -/

/-- The version can be written, if it is a semantic one. -/
def Version.IsValid : Version → Prop
  | semver v _ _ => v.IsValid
  | _ => True

namespace Selector

def IsValid : Selector → Prop
  | ranges set _ => set.IsValid
  | _ => True

def IsVacant : Selector → Prop
  | ranges set _ => set.IsVacant
  | _ => False

instance (s : Selector) : Decidable s.IsVacant :=
  match s with
  | ranges set _ => inferInstanceAs (Decidable set.IsVacant)
  | any | branch _ | tag _ => inferInstanceAs (Decidable False)

variable {s t u : Selector}

theorem isValid_of_ofRanges? {set : RangeSet} (hset : set.IsValid)
    (h : ofRanges? set = some u) : u.IsValid := by
  rw [ofRanges?] at h
  split at h
  · cases h
    exact hset
  · cases h

private theorem isValid_of_inter? (hs : s.IsValid) (ht : t.IsValid) (h : s.inter? t = some u) :
    u.IsValid := by
  rw [inter?.eq_def] at h
  split at h
  · cases h
    exact ht
  · cases h
    exact hs
  · exact isValid_of_ofRanges? (RangeSet.IsValid.inter hs ht) h
  · split at h
    · cases h
      trivial
    · cases h
  · split at h
    · cases h
      trivial
    · cases h
  · cases h

end Selector

namespace Constraint

def IsValid : Constraint → Prop
  | nothing => True
  | admits s _ => s.IsValid

def IsVacant : Constraint → Prop
  | nothing => False
  | admits s _ => s.IsVacant

instance (c : Constraint) : Decidable c.IsVacant :=
  match c with
  | nothing => inferInstanceAs (Decidable False)
  | admits s _ => inferInstanceAs (Decidable s.IsVacant)

/-- A constraint that was read or made by a constructor, or put together from such ones. -/
inductive IsBuilt : Constraint → Prop
  | any : IsBuilt any
  | nothing : IsBuilt nothing
  | branch (name : String) : IsBuilt (branch name)
  | tag (name : String) : IsBuilt (tag name)
  | revision (r : Revision) : IsBuilt (revision r)
  | exact {v : Version} (hv : v.IsValid) : IsBuilt (exact v)
  | parse {input : String} {c : Constraint} (h : parse input = .ok c) : IsBuilt c
  | withRevision {c : Constraint} (h : IsBuilt c) (r : Revision) : IsBuilt (c.withRevision r)
  | inter {a b : Constraint} (ha : IsBuilt a) (hb : IsBuilt b) : IsBuilt (a.inter b)

variable {a b c : Constraint}

theorem IsValid.inter (ha : a.IsValid) (hb : b.IsValid) : (a.inter b).IsValid := by
  rw [Constraint.inter.eq_def]
  split
  · split
    · rename_i hinter
      exact Selector.isValid_of_inter? ha hb hinter
    · trivial
  · trivial

private theorem isValid_exact {v : Version} (hv : v.IsValid) : (exact v).IsValid := by
  cases v with
  | semver version tag revision =>
      refine RangeSet.isValid_ofInterval fun w hw => ?_
      obtain rfl := Option.some.inj hw
      exact hv
  | _ => trivial

private theorem isValid_ofRanges {set : RangeSet} (h : set.IsValid) : (ofRanges set).IsValid := by
  rw [ofRanges]
  split
  · rename_i hselector
    exact Selector.isValid_of_ofRanges? h hselector
  · trivial

theorem isValid_of_parse {input : String} (h : parse input = .ok c) : c.IsValid := by
  simp only [parse] at h
  split at h
  · cases h
    trivial
  · split at h
    · cases h
    · rename_i sets hsets
      cases h
      refine isValid_ofRanges (List.foldlRecOn (motive := RangeSet.IsValid) sets _
        (RangeSet.isValid_ofIntervals (by simp)) fun set hset next hnext => hset.union ?_)
      obtain ⟨text, -, htext⟩ := (mem_iff_of_mapM_eq_ok hsets).mp hnext
      obtain ⟨req, hreq, rfl⟩ := exists_of_map_eq_ok htext
      exact Semver.Requirement.isValid_ranges (Semver.Requirement.isField_of_parseChars hreq)

theorem IsBuilt.isValid (h : c.IsBuilt) : c.IsValid := by
  induction h with
  | exact hv => exact isValid_exact hv
  | parse h => exact isValid_of_parse h
  | withRevision _ r ih => exact ih.inter trivial
  | inter _ _ iha ihb => exact iha.inter ihb
  | _ => trivial

theorem forall_satisfiedBy_eq_false_iff_of_isValid (h : c.IsValid) :
    (∀ v : Version, v.IsValid → c.satisfiedBy v = false) ↔ c.isNothing = true ∨ c.IsVacant := by
  cases c with
  | nothing => exact iff_of_true (fun _ _ => rfl) (.inl rfl)
  | admits selector revision =>
      have hnothing : ¬ (admits selector revision).isNothing = true := by simp [isNothing]
      have hsatisfied : ∀ v : Version, v.underlying = revision →
          (admits selector revision).satisfiedBy v = selector.admits v := fun v hv => by
        simp [satisfiedBy, hv]
      have hadmitted : ∀ v : Version, v.IsValid → v.underlying = revision →
          selector.admits v = true →
            ¬ ∀ v : Version, v.IsValid → (admits selector revision).satisfiedBy v = false := by
        intro v hvalid hv hadmits hall
        rw [← hsatisfied v hv, hall v hvalid] at hadmits
        cases hadmits
      rw [or_iff_right hnothing]
      cases selector with
      | ranges set hset =>
          refine Iff.trans ?_ (RangeSet.isVacant_iff h).symm
          constructor
          · intro hall v hv
            rw [← hall (.semver v "" revision) hv, hsatisfied _ rfl]
            rfl
          · intro hall v hv
            cases v with
            | semver v tag revision' => simp [satisfiedBy, Selector.admits, hall v hv]
            | _ => simp [satisfiedBy, Selector.admits]
      | any => exact iff_of_false (hadmitted (.branch "" revision) trivial rfl rfl) id
      | branch name =>
          exact iff_of_false (hadmitted (.branch name revision) trivial rfl (by simp [Selector.admits])) id
      | tag name =>
          exact iff_of_false (hadmitted (.tag name revision) trivial rfl (by simp [Selector.admits])) id

/-- No version satisfies a constraint if and only if it is the empty one, or it is one of ranges each
of which ends before the first version that could be in it. -/
theorem forall_satisfiedBy_eq_false_iff (h : c.IsBuilt) :
    (∀ v : Version, v.IsValid → c.satisfiedBy v = false) ↔ c.isNothing = true ∨ c.IsVacant :=
  forall_satisfiedBy_eq_false_iff_of_isValid h.isValid

/-- The requirement of something before the first version. -/
def belowFirst : Constraint := ofRanges (.ofInterval ⟨.bottom, .before (.first true)⟩)

theorem satisfiedBy_belowFirst :
    parse "<0.0.0-0" = .ok belowFirst ∧ belowFirst.isNothing = false ∧
      ∀ v : Version, v.IsValid → belowFirst.satisfiedBy v = false := by
  have hparse : parse "<0.0.0-0" = .ok belowFirst := by decide +kernel
  exact ⟨hparse, by decide +kernel,
    (forall_satisfiedBy_eq_false_iff (.parse hparse)).mpr (.inr (by decide +kernel))⟩

/-- The requirement of a version from a prerelease on. -/
def fromAlpha : Constraint := ofRanges (.ofInterval ⟨.before ⟨1, 0, 0, ["alpha"], []⟩, .top⟩)

/-- The requirement of a version before a release. -/
def beforeOne : Constraint := ofRanges (.ofInterval ⟨.bottom, .before (.release 1 0 0)⟩)

/-- The prereleases between the two are left out, since one of the two does not admit them. -/
theorem not_isNothing_fromAlpha_inter_beforeOne :
    parse ">=1.0.0-alpha" = .ok fromAlpha ∧ parse "<1.0.0" = .ok beforeOne ∧
      (fromAlpha.inter beforeOne).isNothing = false ∧
      ∀ v : Version, v.IsValid → (fromAlpha.inter beforeOne).satisfiedBy v = false := by
  have hfrom : parse ">=1.0.0-alpha" = .ok fromAlpha := by decide +kernel
  have hbefore : parse "<1.0.0" = .ok beforeOne := by decide +kernel
  have hvalid := (isValid_of_parse hfrom).inter (isValid_of_parse hbefore)
  exact ⟨hfrom, hbefore, by decide +kernel,
    (forall_satisfiedBy_eq_false_iff_of_isValid hvalid).mpr (.inr (by decide +kernel))⟩

end Constraint

end DepSolver
