import DepSolver.Proofs.Constraint
import Mathlib.Order.BoundedOrder.Lattice

/-!
Constraints as a meet semilattice, ordered by what they cover. A constraint is the only one that
covers what it covers, so the laws of the order are equations between constraints, and a fold of
constraints depends on which there are, not on how often or in what order they come.
-/

namespace DepSolver

namespace Constraint

instance : PartialOrder Constraint where
  le a b := ∀ place revision, a.Covers place revision → b.Covers place revision
  le_refl _ _ _ := id
  le_trans _ _ _ hab hbc place revision h := hbc place revision (hab place revision h)
  le_antisymm _ _ hab hba := ext fun place revision => ⟨hab place revision, hba place revision⟩

instance : SemilatticeInf Constraint where
  inf := inter
  inf_le_left _ _ _ _ h := (covers_inter.mp h).1
  inf_le_right _ _ _ _ h := (covers_inter.mp h).2
  le_inf _ _ _ hb hc place revision h := covers_inter.mpr ⟨hb place revision h, hc place revision h⟩

instance : BoundedOrder Constraint where
  top := any
  le_top _ _ _ _ := ⟨.inl rfl, trivial⟩
  bot := nothing
  bot_le _ _ _ := False.elim

variable {c first first' : Constraint} {l l' : List Constraint}

theorem le_foldl_inter_iff : c ≤ l.foldl inter first ↔ ∀ d ∈ first :: l, c ≤ d := by
  induction l generalizing first with
  | nil => simp
  | cons e rest ih =>
      have hinf : c ≤ first.inter e ↔ c ≤ first ∧ c ≤ e := le_inf_iff
      rw [List.foldl_cons, ih]
      simp only [List.forall_mem_cons, hinf, and_assoc]

theorem foldl_inter_congr (h : ∀ c, c ∈ first :: l ↔ c ∈ first' :: l') :
    l.foldl inter first = l'.foldl inter first' :=
  eq_of_forall_le_iff fun c => by simp only [le_foldl_inter_iff, h]

/-- Intersection means conjunction. -/
theorem satisfiedBy_inter_eq_and (a b : Constraint) (v : Version) :
    (a.inter b).satisfiedBy v = (a.satisfiedBy v && b.satisfiedBy v) :=
  Bool.eq_iff_iff.mpr (by rw [satisfiedBy_inter, Bool.and_eq_true])

/-- Intersection is commutative, associative and idempotent, with `any` as its unit and `nothing` as
its zero. So what a fold of constraints comes to, and its text, is the same for every list of the
same constraints. -/
theorem inter_laws :
    (∀ a b : Constraint, a.inter b = b.inter a) ∧
      (∀ a b c : Constraint, (a.inter b).inter c = a.inter (b.inter c)) ∧
      (∀ a : Constraint, a.inter a = a) ∧
      (∀ a : Constraint, any.inter a = a ∧ a.inter any = a) ∧
      (∀ a : Constraint, nothing.inter a = nothing ∧ a.inter nothing = nothing) ∧
      ∀ (first first' : Constraint) (l l' : List Constraint),
        (∀ c, c ∈ first :: l ↔ c ∈ first' :: l') →
          l.foldl inter first = l'.foldl inter first' ∧
            toString (l.foldl inter first) = toString (l'.foldl inter first') := by
  refine ⟨fun a b => inf_comm a b, fun a b c => inf_assoc a b c, fun a => inf_idem a,
    fun a => ⟨top_inf_eq a, inf_top_eq a⟩, fun a => ⟨bot_inf_eq a, inf_bot_eq a⟩, ?_⟩
  intro first first' l l' h
  have hfold := foldl_inter_congr h
  exact ⟨hfold, congrArg toString hfold⟩

theorem inter_laws_branch_revision :
    (∀ c, c ∈ [any, branch "main", revision ⟨"r1"⟩] ↔
        c ∈ [revision ⟨"r1"⟩, any, revision ⟨"r1"⟩, branch "main"]) ∧
      [branch "main", revision ⟨"r1"⟩].foldl inter any =
        [any, revision ⟨"r1"⟩, branch "main"].foldl inter (revision ⟨"r1"⟩) := by
  have hmem : ∀ c, c ∈ [any, branch "main", revision ⟨"r1"⟩] ↔
      c ∈ [revision ⟨"r1"⟩, any, revision ⟨"r1"⟩, branch "main"] := fun c => by
    simp only [List.mem_cons]
    tauto
  exact ⟨hmem, (inter_laws.2.2.2.2.2 _ _ _ _ hmem).1⟩

end Constraint

end DepSolver
