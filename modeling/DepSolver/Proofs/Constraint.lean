import DepSolver.ConstraintSet
import DepSolver.Proofs.RangeSet.Canonical
import DepSolver.Proofs.Table

/-!
Constraints by the places that they cover, and by the versions that satisfy them. Intersection means
conjunction, so a fold of constraints is satisfied by the versions that satisfy each of them, in
whatever order they come. A constraint is determined by the places that it covers, but not by the
versions: some cuts have no version, and a set that has no prerelease may still admit them.
-/

namespace DepSolver

/-- What a selector tells apart. A cut stands for the version before which it lies, if there is one,
and is taken for a release or for a prerelease. -/
inductive Place
  | cut (c : Cut) (prerelease : Bool)
  | tag (name : String)
  | branch (name : String)
  | unnamed

/-- The place of a version. -/
def Version.place : Version → Place
  | semver v _ _ => .cut (.before v) v.isPrerelease
  | tag name _ => .tag name
  | branch name _ => .branch name
  | revision _ => .unnamed

namespace RangeSet

/-- The places that a range set covers: the cuts in its intervals, for prereleases only if it admits
these. -/
def Admits (set : RangeSet) : Place → Prop
  | .cut c prerelease => (prerelease = false ∨ set.prerelease = true) ∧ set.Covers c
  | _ => False

variable {a b : RangeSet} {place : Place}

theorem admits_inter : (a.inter b).Admits place ↔ a.Admits place ∧ b.Admits place := by
  have hprerelease : (a.inter b).prerelease = (a.prerelease && b.prerelease) := rfl
  cases place with
  | cut c prerelease =>
      rw [Admits, Admits, Admits, covers_inter, hprerelease, Bool.and_eq_true]
      tauto
  | _ => simp [Admits]

theorem exists_covers (h : a.isEmpty = false) : ∃ c, a.Covers c := by
  by_contra hnone
  rw [isEmpty_iff.mpr (not_exists.mp hnone)] at h
  cases h

theorem eq_of_admits_iff (h : ∀ place, a.Admits place ↔ b.Admits place)
    (hempty : a.isEmpty = false) : a = b := by
  have hcovers : ∀ c, a.Covers c ↔ b.Covers c := fun c => by
    simpa [Admits] using h (.cut c false)
  obtain ⟨c, hc⟩ := exists_covers hempty
  have hprerelease : a.prerelease = true ↔ b.prerelease = true := by
    simpa [Admits, (hcovers c).mp hc, hc] using h (.cut c true)
  exact ext hcovers (Bool.eq_iff_iff.mpr hprerelease)

end RangeSet

namespace Selector

/-- The places that a selector covers. -/
def Covers : Selector → Place → Prop
  | any, _ => True
  | ranges set _, place => set.Admits place
  | branch want, .branch name => want = name
  | tag want, .tag name => want = name
  | _, _ => False

variable {s t : Selector} {place : Place}

theorem admits_iff {v : Version} : s.admits v = true ↔ s.Covers v.place := by
  cases s with
  | ranges set h =>
      cases v <;> simp [admits, Covers, RangeSet.Admits, Version.place, RangeSet.contains_iff]
  | _ => cases v <;> simp [admits, Covers, Version.place]

theorem exists_covers (s : Selector) : ∃ place, s.Covers place := by
  cases s with
  | any => exact ⟨.unnamed, trivial⟩
  | ranges set h =>
      obtain ⟨c, hc⟩ := RangeSet.exists_covers h
      exact ⟨.cut c false, .inl rfl, hc⟩
  | branch name => exact ⟨.branch name, rfl⟩
  | tag name => exact ⟨.tag name, rfl⟩

theorem exists_ofRanges?_covers {set : RangeSet} :
    (∃ selector, ofRanges? set = some selector ∧ selector.Covers place) ↔ set.Admits place := by
  rw [ofRanges?]
  split
  · simp [Covers]
  · rename_i hempty
    rw [Bool.not_eq_false, RangeSet.isEmpty_iff] at hempty
    cases place <;> simp [RangeSet.Admits, hempty]

theorem exists_inter?_covers :
    (∃ selector, s.inter? t = some selector ∧ selector.Covers place) ↔
      s.Covers place ∧ t.Covers place := by
  cases s with
  | any => simp [inter?, Covers]
  | ranges a ha =>
      cases t with
      | ranges b hb => exact exists_ofRanges?_covers.trans RangeSet.admits_inter
      | any => simp [inter?, Covers]
      | _ => cases place <;> simp [inter?, Covers, RangeSet.Admits]
  | branch a =>
      cases t with
      | branch b =>
          rw [inter?]
          split <;> cases place <;> simp_all [Covers]
          grind
      | _ => cases place <;> simp [inter?, Covers, RangeSet.Admits]
  | tag a =>
      cases t with
      | tag b =>
          rw [inter?]
          split <;> cases place <;> simp_all [Covers]
          grind
      | _ => cases place <;> simp [inter?, Covers, RangeSet.Admits]

theorem ext (h : ∀ place, s.Covers place ↔ t.Covers place) : s = t := by
  cases s with
  | any =>
      cases t with
      | any => rfl
      | _ => simpa [Covers, RangeSet.Admits] using h .unnamed
  | ranges a ha =>
      cases t with
      | ranges b hb =>
          obtain rfl := RangeSet.eq_of_admits_iff h ha
          rfl
      | any => simpa [Covers, RangeSet.Admits] using h .unnamed
      | branch name => simpa [Covers, RangeSet.Admits] using h (.branch name)
      | tag name => simpa [Covers, RangeSet.Admits] using h (.tag name)
  | branch a =>
      cases t with
      | any => simpa [Covers] using h .unnamed
      | branch b => simpa [Covers, eq_comm] using h (.branch a)
      | _ => simpa [Covers, RangeSet.Admits] using h (.branch a)
  | tag a =>
      cases t with
      | any => simpa [Covers] using h .unnamed
      | tag b => simpa [Covers, eq_comm] using h (.tag a)
      | _ => simpa [Covers, RangeSet.Admits] using h (.tag a)

end Selector

namespace Constraint

variable {a b : Constraint} {place : Place} {revision : Option Revision} {v : Version}

/-- The places and revisions that a constraint covers. -/
def Covers : Constraint → Place → Option Revision → Prop
  | nothing, _, _ => False
  | admits s required, place, revision =>
      (required = none ∨ required = revision) ∧ s.Covers place

theorem satisfiedBy_iff : a.satisfiedBy v = true ↔ a.Covers v.place v.underlying := by
  cases a with
  | nothing => simp [satisfiedBy, Covers]
  | admits s required =>
      simp [satisfiedBy, Covers, Selector.admits_iff, eq_comm (a := v.underlying)]

theorem exists_interRevision? {r q : Option Revision} :
    (∃ required, interRevision? r q = some required ∧ (required = none ∨ required = revision)) ↔
      (r = none ∨ r = revision) ∧ (q = none ∨ q = revision) := by
  cases r with
  | none => simp [interRevision?]
  | some x =>
      cases q with
      | none => simp [interRevision?]
      | some y =>
          rw [interRevision?]
          split <;> simp_all
          grind

theorem covers_inter :
    (a.inter b).Covers place revision ↔ a.Covers place revision ∧ b.Covers place revision := by
  cases a with
  | nothing => simp [inter, Covers]
  | admits s r =>
      cases b with
      | nothing => simp [inter, Covers]
      | admits t q =>
          rw [Covers, Covers, and_and_and_comm, ← exists_interRevision?,
            ← Selector.exists_inter?_covers, inter]
          cases interRevision? r q <;> cases s.inter? t <;> simp [Covers]

theorem ext (h : ∀ place revision, a.Covers place revision ↔ b.Covers place revision) : a = b := by
  cases a with
  | nothing =>
      cases b with
      | nothing => rfl
      | admits t q =>
          obtain ⟨place, hplace⟩ := t.exists_covers
          exact ((h place q).mpr ⟨.inr rfl, hplace⟩).elim
  | admits s r =>
      obtain ⟨place, hplace⟩ := s.exists_covers
      cases b with
      | nothing => exact ((h place r).mp ⟨.inr rfl, hplace⟩).elim
      | admits t q =>
          obtain ⟨place', hplace'⟩ := t.exists_covers
          have hq : q = none ∨ q = r := ((h place r).mp ⟨.inr rfl, hplace⟩).1
          have hr : r = none ∨ r = q := ((h place' q).mpr ⟨.inr rfl, hplace'⟩).1
          obtain rfl : r = q := by grind
          have hst : s = t := Selector.ext fun place => by
            simpa [Covers] using h place r
          rw [hst]

theorem satisfiedBy_inter :
    (a.inter b).satisfiedBy v = true ↔ a.satisfiedBy v = true ∧ b.satisfiedBy v = true := by
  rw [satisfiedBy_iff, satisfiedBy_iff, satisfiedBy_iff, covers_inter]

theorem satisfiedBy_foldl_inter {l : List Constraint} {first : Constraint} {v : Version} :
    (l.foldl inter first).satisfiedBy v = true ↔
      first.satisfiedBy v = true ∧ ∀ c ∈ l, c.satisfiedBy v = true := by
  induction l generalizing first with
  | nil => simp
  | cons c rest ih =>
      rw [List.foldl_cons, ih, satisfiedBy_inter, List.forall_mem_cons, and_assoc]

theorem satisfiedBy_interAll {l : List Constraint} {v : Version} :
    (interAll l).satisfiedBy v = true ↔ ∀ c ∈ l, c.satisfiedBy v = true := by
  rw [interAll, satisfiedBy_foldl_inter]
  exact and_iff_right rfl

theorem isNothing_eq_false_of_satisfiedBy {c : Constraint} {v : Version}
    (h : c.satisfiedBy v = true) : c.isNothing = false := by
  cases c with
  | nothing => cases h
  | admits s r => rfl

theorem any_inter (c : Constraint) : any.inter c = c := by
  cases c with
  | nothing => rfl
  | admits s r => cases r <;> rfl

end Constraint

theorem Contribution.satisfiedBy_interAll {l : List Contribution} {v : Version} :
    (interAll l).satisfiedBy v = true ↔ ∀ c ∈ l, c.constraint.satisfiedBy v = true := by
  rw [interAll, Constraint.satisfiedBy_interAll, List.forall_mem_map]

namespace ConstraintSet

/-- A set that was merged from contributions, or taken from one manifest. -/
def IsMerged (s : ConstraintSet) : Prop :=
  (∃ b : Contributions, b.build = .ok s) ∨ ∃ origin m, s = ofManifest origin m

/-- A constraint on a project is the fold of all that contributed to it. -/
theorem IsMerged.interAll_eq {s : ConstraintSet} (h : s.IsMerged) {root : ProjectRoot}
    {c : MergedConstraint}
    (hc : s.dependencies.get? root = some c ∨ s.overrides.get? root = some c) :
    Contribution.interAll c.contributions = c.constraint := by
  rcases h with ⟨b, hb⟩ | ⟨origin, m, rfl⟩
  · rw [Contributions.build] at hb
    split at hb
    · cases hb
      simp only [Contributions.mergeTable, Table.get?_map, Option.map_eq_some_iff] at hc
      obtain ⟨l, -, rfl⟩ | ⟨l, -, rfl⟩ := hc
      · rfl
      · rfl
    · cases hb
  · simp only [ofManifest, Table.get?_map, Option.map_eq_some_iff] at hc
    obtain ⟨d, -, rfl⟩ | ⟨d, -, rfl⟩ := hc
    · exact Constraint.any_inter d.constraint
    · exact Constraint.any_inter d.constraint

theorem IsMerged.interAll_contributions {s : ConstraintSet} (h : s.IsMerged)
    {root : ProjectRoot} {c : MergedConstraint} (hc : s.dependencies.get? root = some c) :
    Contribution.interAll c.contributions = c.constraint :=
  h.interAll_eq (.inl hc)

end ConstraintSet

end DepSolver
