import DepSolver.Proofs.RangeSet.Canonical
import Mathlib.Order.Lattice

/-!
Range sets as a distributive lattice, ordered by the cuts that they cover and by whether they admit
prereleases. Whatever is put together from intervals by unions and intersections has the canonical
form, and covers what the sets of cuts come to.
-/

namespace DepSolver

/-- Two intervals have a cut in common, or one of them ends where the other begins. -/
def Interval.Connects (i j : Interval) : Prop :=
  (compare i.lower j.upper).isLE ∧ (compare j.lower i.upper).isLE

theorem Canonical.pairwise_lower {l : List Interval} (h : Canonical l) :
    l.Pairwise fun i j => compare i.lower j.lower = .lt := by
  refine h.apart.imp_of_mem ?_
  intro i j hi _ hgap
  exact Std.TransCmp.lt_trans (h.nonempty i hi) hgap

theorem Canonical.pairwise_not_connects {l : List Interval} (h : Canonical l) :
    l.Pairwise fun i j => ¬ i.Connects j := by
  refine h.apart.imp ?_
  rintro i j hgap ⟨-, hle⟩
  exact Std.OrientedCmp.not_isLE_of_lt hgap hle

namespace RangeSet

instance : PartialOrder RangeSet where
  le a b := (∀ c, a.Covers c → b.Covers c) ∧ (a.prerelease = true → b.prerelease = true)
  le_refl _ := ⟨fun _ => id, id⟩
  le_trans _ _ _ hab hbc := ⟨fun c h => hbc.1 c (hab.1 c h), fun h => hbc.2 (hab.2 h)⟩
  le_antisymm _ _ hab hba :=
    ext (fun c => ⟨hab.1 c, hba.1 c⟩) (Bool.eq_iff_iff.mpr ⟨hab.2, hba.2⟩)

variable {a b c : RangeSet}

theorem le_inter_iff : a ≤ b.inter c ↔ a ≤ b ∧ a ≤ c := by
  have hprerelease : (b.inter c).prerelease = (b.prerelease && c.prerelease) := rfl
  change (∀ x, a.Covers x → (b.inter c).Covers x) ∧ _ ↔
    ((∀ x, a.Covers x → b.Covers x) ∧ _) ∧ (∀ x, a.Covers x → c.Covers x) ∧ _
  simp only [covers_inter, hprerelease, Bool.and_eq_true, imp_and, forall_and]
  tauto

theorem union_le_iff : a.union b ≤ c ↔ a ≤ c ∧ b ≤ c := by
  have hprerelease : (a.union b).prerelease = (a.prerelease || b.prerelease) := rfl
  change (∀ x, (a.union b).Covers x → c.Covers x) ∧ _ ↔
    ((∀ x, a.Covers x → c.Covers x) ∧ _) ∧ (∀ x, b.Covers x → c.Covers x) ∧ _
  simp only [covers_union, hprerelease, Bool.or_eq_true, or_imp, forall_and]
  tauto

theorem inter_union_le (a b c : RangeSet) :
    (a.union b).inter (a.union c) ≤ a.union (b.inter c) := by
  constructor
  · intro x
    simp only [covers_inter, covers_union]
    tauto
  · change ((a.prerelease || b.prerelease) && (a.prerelease || c.prerelease)) = true →
      (a.prerelease || (b.prerelease && c.prerelease)) = true
    simp only [Bool.and_eq_true, Bool.or_eq_true]
    tauto

instance : DistribLattice RangeSet where
  sup := union
  le_sup_left _ _ := (union_le_iff.mp le_rfl).1
  le_sup_right _ _ := (union_le_iff.mp le_rfl).2
  sup_le _ _ _ ha hb := union_le_iff.mpr ⟨ha, hb⟩
  inf := inter
  inf_le_left _ _ := (le_inter_iff.mp le_rfl).1
  inf_le_right _ _ := (le_inter_iff.mp le_rfl).2
  le_inf _ _ _ hb hc := le_inter_iff.mpr ⟨hb, hc⟩
  le_sup_inf := inter_union_le

/-! ### What is put together from intervals -/

/-- How a range set is put together. -/
inductive Expression
  | empty
  | full
  | interval (i : Interval)
  | union (e f : Expression)
  | inter (e f : Expression)

namespace Expression

def eval : Expression → RangeSet
  | empty => .empty
  | full => .full
  | interval i => .ofInterval i
  | union e f => e.eval.union f.eval
  | inter e f => e.eval.inter f.eval

/-- The cuts that are meant. -/
def Covers : Expression → Cut → Prop
  | empty, _ => False
  | full, c => Interval.Covers ⟨.bottom, .top⟩ c
  | interval i, c => i.Covers c
  | union e f, c => e.Covers c ∨ f.Covers c
  | inter e f, c => e.Covers c ∧ f.Covers c

/-- Whether prereleases are meant. -/
def prerelease : Expression → Bool
  | empty | full => false
  | interval i => i.namesPrerelease
  | union e f => e.prerelease || f.prerelease
  | inter e f => e.prerelease && f.prerelease

theorem covers_eval (e : Expression) (c : Cut) : e.eval.Covers c ↔ e.Covers c := by
  induction e with
  | empty => exact iff_of_false covers_empty id
  | full => exact covers_ofInterval
  | interval i => exact covers_ofInterval
  | union e f ihe ihf => exact covers_union.trans (or_congr ihe ihf)
  | inter e f ihe ihf => exact covers_inter.trans (and_congr ihe ihf)

private theorem prerelease_eval (e : Expression) : e.eval.prerelease = e.prerelease := by
  induction e with
  | empty => rfl
  | full => rfl
  | interval i => rfl
  | union e f ihe ihf => exact congrArg₂ (· || ·) ihe ihf
  | inter e f ihe ihf => exact congrArg₂ (· && ·) ihe ihf

theorem eval_eq_iff {e f : Expression} :
    e.eval = f.eval ↔ (∀ c, e.Covers c ↔ f.Covers c) ∧ e.prerelease = f.prerelease := by
  simp only [← covers_eval, ← prerelease_eval]
  constructor
  · intro h
    rw [h]
    exact ⟨fun _ => Iff.rfl, rfl⟩
  · exact fun h => ext h.1 h.2

end Expression

theorem contains_union {v : Semver} :
    (a.union b).contains v = true ↔
      (∃ i ∈ a.intervals ++ b.intervals, i.contains v = true) ∧
        (v.isPrerelease = false ∨ a.prerelease = true ∨ b.prerelease = true) := by
  have hprerelease : (a.union b).prerelease = (a.prerelease || b.prerelease) := rfl
  rw [contains_iff, covers_union, hprerelease, Bool.or_eq_true, and_comm]
  simp only [Covers, Interval.contains_iff, List.mem_append, or_and_right, exists_or]

/-- Range sets are a distributive lattice in canonical form. Whatever is put together from intervals
has intervals that are not empty, come in order and neither overlap nor touch; it covers just the
cuts that are meant, and is the only set of that kind to do so. -/
theorem canonical_lattice :
    (∀ e : Expression,
      (∀ i ∈ e.eval.intervals, i.isEmpty = false) ∧
      (e.eval.intervals.Pairwise fun i j => compare i.lower j.lower = .lt) ∧
      (e.eval.intervals.Pairwise fun i j => ¬ i.Connects j) ∧
      ∀ c, e.eval.Covers c ↔ e.Covers c) ∧
    (∀ e f : Expression,
      e.eval = f.eval ↔ (∀ c, e.Covers c ↔ f.Covers c) ∧ e.prerelease = f.prerelease) ∧
    (∀ a b : RangeSet, a.union b = b.union a ∧ a.inter b = b.inter a) ∧
    (∀ a b c : RangeSet, (a.union b).union c = a.union (b.union c) ∧
      (a.inter b).inter c = a.inter (b.inter c)) ∧
    (∀ a : RangeSet, a.union a = a ∧ a.inter a = a) ∧
    (∀ a b : RangeSet, a.union (a.inter b) = a ∧ a.inter (a.union b) = a) ∧
    (∀ a b c : RangeSet, a.inter (b.union c) = (a.inter b).union (a.inter c)) ∧
    ∀ (a b : RangeSet) (v : Semver), (a.union b).contains v = true ↔
      (∃ i ∈ a.intervals ++ b.intervals, i.contains v = true) ∧
        (v.isPrerelease = false ∨ a.prerelease = true ∨ b.prerelease = true) := by
  refine ⟨fun e => ⟨?_, ?_, ?_, e.covers_eval⟩, fun e f => Expression.eval_eq_iff, ?_, ?_, ?_, ?_,
    ?_, fun a b v => contains_union⟩
  · intro i hi
    simp [Interval.isEmpty, e.eval.canonical.nonempty i hi]
  · exact e.eval.canonical.pairwise_lower
  · exact e.eval.canonical.pairwise_not_connects
  · exact fun a b => ⟨sup_comm a b, inf_comm a b⟩
  · exact fun a b c => ⟨sup_assoc a b c, inf_assoc a b c⟩
  · exact fun a => ⟨sup_idem a, inf_idem a⟩
  · exact fun a b => ⟨sup_inf_self, inf_sup_self⟩
  · exact fun a b c => inf_sup_left a b c

/-- What comes before a release and what lies between it and another one touch, so they make one
interval. -/
theorem canonical_lattice_touching :
    ∃ e : Expression,
      e = .union (.interval ⟨.bottom, .before (.release 1 0 0)⟩)
        (.inter (.interval ⟨.before (.release 1 0 0), .before (.release 2 0 0)⟩) .full) ∧
      e.eval.intervals = [⟨.bottom, .before (.release 2 0 0)⟩] ∧
      (∀ i ∈ e.eval.intervals, i.isEmpty = false) ∧
      e.eval = Expression.eval (.interval ⟨.bottom, .before (.release 2 0 0)⟩) ∧
      e.Covers (.before (.release 1 0 0)) := by
  obtain ⟨hform, -⟩ := canonical_lattice
  have heval : Expression.eval (.union (.interval ⟨.bottom, .before (.release 1 0 0)⟩)
      (.inter (.interval ⟨.before (.release 1 0 0), .before (.release 2 0 0)⟩) .full)) =
        Expression.eval (.interval ⟨.bottom, .before (.release 2 0 0)⟩) := by
    decide +kernel
  refine ⟨_, rfl, by decide +kernel, (hform _).1, heval, ((hform _).2.2.2 _).mp ?_⟩
  rw [heval]
  exact ((hform _).2.2.2 _).mpr ⟨by decide, by decide⟩

end RangeSet

end DepSolver
