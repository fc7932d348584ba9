import DepSolver.Proofs.Constraint.Emptiness
import DepSolver.Proofs.Semver.Matching

/-!
What a constraint that is read means. The interval of a comparator holds the releases that meet the
comparator by its rule, and the intersections and unions that are taken of such intervals keep to
that. Prereleases are taken by their order alone, where some comparator names one.
-/

namespace DepSolver

namespace Cut

variable {v w : Semver}

private theorem isLE_before_before :
    (compare (before w) (before v)).isLE = true ↔ ¬ compare v w = .lt := by
  rw [compare_before_before, ← Std.OrientedCmp.isGE_iff_isLE, Ordering.isGE_iff_ne_lt]

theorem compare_before_after :
    compare (before v) (after w) = .lt ↔ ¬ compare v w = .gt := by
  rw [Std.OrientedCmp.gt_iff_lt, ← isLE_after_before, ← Std.OrientedCmp.isGE_iff_isLE,
    Ordering.isGE_iff_ne_lt, not_not]

end Cut

namespace Semver.Comparator

variable {c : Comparator} {v : Semver}

/-- The end of the versions that agree with a comparator in what it gives. -/
def pastFamily (c : Comparator) : Cut :=
  if c.isComplete then .after c.base else .before c.familyEnd

theorem compare_pastFamily_iff (hc : c.IsWellFormed) (hv : v.IsPlainRelease)
    (hbound : c.isComplete = false → (c.minor.getD c.major).toNat + 1 < UInt64.size) :
    compare (.before v) c.pastFamily = .lt ↔ ¬ c.compareGiven v = .gt := by
  rw [pastFamily]
  split
  · rename_i hcomplete
    rw [Cut.compare_before_after]
    cases hc with
    | major => cases hcomplete
    | minor => cases hcomplete
    | patch relation major minor patch pre =>
        rw [compareGiven_patch hv.build]
        rfl
  · rename_i hpartial
    rw [Bool.not_eq_true] at hpartial
    rw [Cut.compare_before_before]
    exact compare_familyEnd_eq_lt_iff hc hv hpartial (hbound hpartial)

theorem isLE_pastFamily_iff (hc : c.IsWellFormed) (hv : v.IsPlainRelease)
    (hbound : c.isComplete = false → (c.minor.getD c.major).toNat + 1 < UInt64.size) :
    (compare c.pastFamily (.before v)).isLE = true ↔ c.compareGiven v = .gt := by
  rw [← Std.OrientedCmp.isGE_iff_isLE, Ordering.isGE_iff_ne_lt,
    compare_pastFamily_iff hc hv hbound, not_not]

theorem contains_interval_iff (hc : c.IsWellFormed) (hv : v.IsPlainRelease)
    (hbound : c.IsBounded) : c.interval.contains v = true ↔ c.admits v = true := by
  have hlower : (compare (Cut.before c.base) (.before v)).isLE = true ↔
      ¬ c.compareGiven v = .lt := by
    rw [Cut.isLE_before_before, compare_base_eq_lt_iff hc hv]
  have hexact := admitsExact_iff hc hv
  have hbottom : (compare Cut.bottom (.before v)).isLE = true := rfl
  have htop : compare (.before v) Cut.top = .lt := rfl
  rw [Interval.contains_iff, Interval.Covers]
  cases hrelation : c.relation with
  | exact | wildcard =>
      have hupper := compare_pastFamily_iff hc hv fun hpartial =>
        hbound _ (by simp [raised?, hrelation, hpartial])
      simp only [interval, admits, hrelation]
      rw [← pastFamily, hlower, hupper, hexact]
      cases c.compareGiven v <;> decide
  | greater =>
      have hlater := isLE_pastFamily_iff hc hv fun hpartial =>
        hbound _ (by simp [raised?, hrelation, hpartial])
      simp only [interval, admits, hrelation]
      rw [← pastFamily, hlater, and_iff_left htop, beq_iff_eq]
  | greaterEq =>
      simp only [interval, admits, hrelation]
      rw [hlower, and_iff_left htop, Bool.or_eq_true, hexact, beq_iff_eq]
      cases c.compareGiven v <;> decide
  | less =>
      simp only [interval, admits, hrelation]
      rw [and_iff_right hbottom, Cut.compare_before_before, compare_base_eq_lt_iff hc hv,
        beq_iff_eq]
  | lessEq =>
      have hupper := compare_pastFamily_iff hc hv fun hpartial =>
        hbound _ (by simp [raised?, hrelation, hpartial])
      simp only [interval, admits, hrelation]
      rw [← pastFamily, and_iff_right hbottom, hupper, Bool.or_eq_true, hexact, beq_iff_eq]
      cases c.compareGiven v <;> decide
  | tilde =>
      have hnumber : (c.minor.getD c.major).toNat + 1 < UInt64.size :=
        hbound _ (by simp [raised?, hrelation])
      simp only [interval, admits, hrelation]
      rw [Cut.isLE_before_before, Cut.compare_before_before, admitsTilde_iff hc hv hnumber]
  | caret =>
      have hnumber : c.caretNumber.toNat + 1 < UInt64.size :=
        hbound _ (by simp [raised?, hrelation])
      rw [interval_caret hc hrelation]
      simp only [admits, hrelation]
      rw [Cut.isLE_before_before, Cut.compare_before_before, admitsCaret_iff hc hv hnumber]

private theorem prerelease_pastFamily (hc : c.IsWellFormed) :
    c.pastFamily.version?.any Semver.isPrerelease = c.base.isPrerelease := by
  cases hc with
  | major => rfl
  | minor => rfl
  | patch => rfl

private theorem isPrerelease_caretEnd (c : Comparator) : c.caretEnd.isPrerelease = false := by
  rw [caretEnd]
  cases c.minor with
  | none => split <;> rfl
  | some minor =>
      cases c.patch <;> dsimp only [Option.elim] <;> split_ifs <;> rfl

private theorem namesPrerelease_interval (hc : c.IsWellFormed) :
    c.interval.namesPrerelease = c.base.isPrerelease := by
  have hfamily := prerelease_pastFamily hc
  rw [Interval.namesPrerelease]
  cases hrelation : c.relation with
  | exact | wildcard =>
      simp only [interval, hrelation]
      rw [← pastFamily, hfamily]
      exact Bool.or_self _
  | greater =>
      simp only [interval, hrelation]
      rw [← pastFamily, hfamily]
      exact Bool.or_false _
  | greaterEq =>
      simp only [interval, hrelation]
      exact Bool.or_false _
  | less =>
      simp only [interval, hrelation]
      rfl
  | lessEq =>
      simp only [interval, hrelation]
      rw [← pastFamily, hfamily]
      rfl
  | tilde =>
      simp only [interval, hrelation]
      cases c.minor <;> exact Bool.or_false _
  | caret =>
      rw [interval_caret hc hrelation]
      change (c.base.isPrerelease || c.caretEnd.isPrerelease) = c.base.isPrerelease
      rw [isPrerelease_caretEnd, Bool.or_false]

end Semver.Comparator

/-! ### Requirements and alternatives -/

namespace RangeSet

variable {s : RangeSet} {c : Cut}

theorem covers_foldl_inter {l : List Interval} :
    (l.foldl (fun set i => set.inter (.ofInterval i)) s).Covers c ↔
      s.Covers c ∧ ∀ i ∈ l, i.Covers c := by
  induction l generalizing s with
  | nil => simp
  | cons i l ih =>
      rw [List.foldl_cons, ih, covers_inter, covers_ofInterval, List.forall_mem_cons, and_assoc]

theorem covers_foldl_union {l : List RangeSet} :
    (l.foldl union s).Covers c ↔ s.Covers c ∨ ∃ t ∈ l, t.Covers c := by
  induction l generalizing s with
  | nil => simp
  | cons t l ih => rw [List.foldl_cons, ih, covers_union, List.exists_mem_cons_iff, or_assoc]

theorem prerelease_foldl_union {l : List RangeSet} :
    (l.foldl union s).prerelease = true ↔
      s.prerelease = true ∨ ∃ t ∈ l, t.prerelease = true := by
  induction l generalizing s with
  | nil => simp
  | cons t l ih =>
      have hunion : (s.union t).prerelease = (s.prerelease || t.prerelease) := rfl
      rw [List.foldl_cons, ih, hunion, Bool.or_eq_true, List.exists_mem_cons_iff, or_assoc]

end RangeSet

namespace Semver.Requirement

variable {req : Requirement} {v : Semver}

theorem covers_ranges :
    req.ranges.Covers (.before v) ↔ ∀ k ∈ req.comparators, k.interval.contains v = true := by
  have hfull : RangeSet.full.Covers (.before v) := RangeSet.covers_ofInterval.mpr ⟨rfl, rfl⟩
  refine RangeSet.covers_foldl_inter.trans ?_
  simp only [hfull, true_and, List.forall_mem_map, Interval.contains_iff]

private theorem prerelease_ranges (h : ∀ k ∈ req.comparators, k.IsWellFormed) :
    req.ranges.prerelease = true ↔ ∃ k ∈ req.comparators, k.pre ≠ [] := by
  change (req.comparators.map (·.interval)).any (·.namesPrerelease) = true ↔ _
  rw [List.any_map, List.any_eq_true]
  refine exists_congr fun k => and_congr_right fun hk => ?_
  rw [Function.comp_apply, Comparator.namesPrerelease_interval (h k hk)]
  simp [Comparator.base, isPrerelease]

private theorem covers_ranges_iff_admits (h : ∀ k ∈ req.comparators, k.IsWellFormed)
    (hbound : ∀ k ∈ req.comparators, k.IsBounded) (hv : v.IsPlainRelease) :
    req.ranges.Covers (.before v) ↔ req.admits v = true := by
  have hrelease : v.isPrerelease = false := by rw [isPrerelease, hv.pre]; rfl
  rw [covers_ranges, admits, hrelease, Bool.not_false, Bool.true_or, Bool.and_true,
    List.all_eq_true]
  exact forall₂_congr fun k hk => Comparator.contains_interval_iff (h k hk) hv (hbound k hk)

end Semver.Requirement

namespace Constraint

variable {input : String} {c : Constraint}

theorem satisfiedBy_ofRanges (set : RangeSet) (v : Semver) (tag : String)
    (revision : Option Revision) :
    (ofRanges set).satisfiedBy (.semver v tag revision) = set.contains v := by
  rw [ofRanges, Selector.ofRanges?]
  split
  · rename_i hselector
    split at hselector
    · cases hselector
      rfl
    · cases hselector
  · rename_i hselector
    split at hselector
    · cases hselector
    · rename_i hempty
      rw [RangeSet.isEmpty, Bool.not_eq_false, List.isEmpty_iff] at hempty
      simp [satisfiedBy, RangeSet.contains, hempty]

/-- Read one alternative of a constraint as a requirement. -/
def readRequirement (text : List Char) : Except Semver.ParseError Semver.Requirement :=
  Semver.Requirement.parseChars (singleEquals (Text.strip Text.isBlank text))

theorem exists_requirements_of_parse (h : parse input = .ok c)
    (hblank : Text.strip Text.isBlank input.toList ≠ [])
    (hstar : Text.strip Text.isBlank input.toList ≠ ['*']) :
    ∃ reqs, (alternatives (Text.strip Text.isBlank input.toList)).mapM readRequirement = .ok reqs ∧
      c = ofRanges ((reqs.map (·.ranges)).foldl RangeSet.union .empty) := by
  simp only [parse, hblank, hstar, decide_false, Bool.or_false, Bool.false_eq_true, if_false] at h
  split at h
  · cases h
  · rename_i sets hsets
    cases h
    have hread : readAlternative = fun text => (readRequirement text).map (·.ranges) := rfl
    rw [hread, mapM_map_eq] at hsets
    obtain ⟨reqs, hreqs, rfl⟩ := exists_of_map_eq_ok hsets
    exact ⟨reqs, hreqs, rfl⟩

/-- A release satisfies a constraint that is read if it meets a requirement between `||` by the
rules. A prerelease satisfies it if it lies in the intervals of a requirement, and some comparator
names a prerelease. -/
theorem satisfiedBy_iff_of_parse (h : parse input = .ok c)
    (hblank : Text.strip Text.isBlank input.toList ≠ [])
    (hstar : Text.strip Text.isBlank input.toList ≠ ['*']) :
    ∃ reqs, (alternatives (Text.strip Text.isBlank input.toList)).mapM readRequirement = .ok reqs ∧
      ∀ (v : Semver) (tag : String) (revision : Option Revision),
        (v.isPrerelease = false → v.build = [] →
          (∀ req ∈ reqs, ∀ k ∈ req.comparators, k.IsBounded) →
          (c.satisfiedBy (.semver v tag revision) = true ↔ ∃ req ∈ reqs, req.admits v = true)) ∧
        (v.isPrerelease = true →
          (c.satisfiedBy (.semver v tag revision) = true ↔
            (∃ req ∈ reqs, ∀ k ∈ req.comparators, k.interval.contains v = true) ∧
              ∃ req ∈ reqs, ∃ k ∈ req.comparators, k.pre ≠ [])) := by
  obtain ⟨reqs, hreqs, rfl⟩ := exists_requirements_of_parse h hblank hstar
  have hread : ∀ req ∈ reqs, ∀ k ∈ req.comparators, k.IsWellFormed := by
    intro req hreq
    obtain ⟨text, -, htext⟩ := (mem_iff_of_mapM_eq_ok hreqs).mp hreq
    exact Semver.Requirement.isWellFormed_of_parseChars htext
  refine ⟨reqs, hreqs, fun v tag revision => ⟨?_, ?_⟩⟩
  · intro hrelease hbuild hbound
    have hv : v.IsPlainRelease := ⟨by simpa [Semver.isPrerelease] using hrelease, hbuild⟩
    rw [satisfiedBy_ofRanges, RangeSet.contains_iff, RangeSet.covers_foldl_union,
      and_iff_right (.inl hrelease), or_iff_right RangeSet.covers_empty]
    simp only [List.mem_map, exists_exists_and_eq_and]
    exact exists_congr fun req => and_congr_right fun hreq =>
      Semver.Requirement.covers_ranges_iff_admits (hread req hreq) (hbound req hreq) hv
  · intro hpre
    have hempty : RangeSet.empty.prerelease = false := rfl
    rw [satisfiedBy_ofRanges, RangeSet.contains_iff, RangeSet.covers_foldl_union,
      RangeSet.prerelease_foldl_union, or_iff_right RangeSet.covers_empty, hpre, hempty, and_comm]
    simp only [Bool.true_eq_false, Bool.false_eq_true, false_or, List.mem_map,
      exists_exists_and_eq_and, Semver.Requirement.covers_ranges]
    exact and_congr_right fun _ => exists_congr fun req => and_congr_right fun hreq =>
      Semver.Requirement.prerelease_ranges (hread req hreq)

/-- The requirements in `^0.2.3 || ~1.2, >=1.2.0-rc.1`. -/
def mixedRequirements : List Semver.Requirement :=
  [⟨[⟨.caret, 0, some 2, some 3, []⟩]⟩,
    ⟨[⟨.tilde, 1, some 2, none, []⟩, ⟨.greaterEq, 1, some 2, some 0, ["rc", "1"]⟩]⟩]

def mixedConstraint : Constraint :=
  .ofRanges (.ofIntervals
    [⟨.before (.release 0 2 3), .before (.release 0 3 0)⟩,
      ⟨.before (.release 1 2 0), .before (.release 1 3 0)⟩] true)

theorem satisfiedBy_mixedConstraint :
    parse "^0.2.3 || ~1.2, >=1.2.0-rc.1" = .ok mixedConstraint ∧
      (∀ req ∈ mixedRequirements, ∀ k ∈ req.comparators, k.IsBounded) ∧
      ∀ (v : Semver) (tag : String) (revision : Option Revision),
        v.isPrerelease = false → v.build = [] →
          (mixedConstraint.satisfiedBy (.semver v tag revision) = true ↔
            ∃ req ∈ mixedRequirements, req.admits v = true) := by
  have hparse : parse "^0.2.3 || ~1.2, >=1.2.0-rc.1" = .ok mixedConstraint := by decide +kernel
  have hbound : ∀ req ∈ mixedRequirements, ∀ k ∈ req.comparators, k.IsBounded := by
    decide +kernel
  obtain ⟨reqs, hreqs, hmeans⟩ :=
    satisfiedBy_iff_of_parse hparse (by decide +kernel) (by decide +kernel)
  have hmixed : (alternatives (Text.strip Text.isBlank
      "^0.2.3 || ~1.2, >=1.2.0-rc.1".toList)).mapM readRequirement = .ok mixedRequirements := by
    decide +kernel
  cases hreqs.symm.trans hmixed
  exact ⟨hparse, hbound, fun v tag revision hrelease hbuild =>
    (hmeans v tag revision).1 hrelease hbuild hbound⟩

end Constraint

end DepSolver
