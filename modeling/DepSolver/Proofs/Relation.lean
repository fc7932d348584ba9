import DepSolver.Proofs.SortedSet
import DepSolver.Proofs.Table

/-!
Tables of sets as relations: a key is related to the elements of the set at it.
-/

namespace DepSolver.Table

variable {κ α : Type} [Ord κ] [Ord α]

/-- A key is related to the elements of the set at it. -/
def Relates (t : Table κ (SortedSet α)) (k : κ) (a : α) : Prop :=
  ∃ set, t.get? k = some set ∧ a ∈ set

/-- Every set in a table has an element. -/
def IsProper (t : Table κ (SortedSet α)) : Prop :=
  ∀ k set, t.get? k = some set → ∃ a, a ∈ set

theorem relates_iff_mem_getD {t : Table κ (SortedSet α)} {k : κ} {a : α} :
    t.Relates k a ↔ a ∈ (t.get? k).getD .empty := by
  rw [Relates]
  cases t.get? k <;> simp

theorem not_relates_empty (k : κ) (a : α) : ¬ (empty : Table κ (SortedSet α)).Relates k a := by
  rintro ⟨set, hset, -⟩
  cases hset

theorem isProper_empty : (empty : Table κ (SortedSet α)).IsProper := by
  intro k set hset
  cases hset

theorem IsProper.exists_relates {t : Table κ (SortedSet α)} (h : t.IsProper) {k : κ}
    {set : SortedSet α} (hset : t.get? k = some set) : ∃ a, t.Relates k a := by
  obtain ⟨a, ha⟩ := h k set hset
  exact ⟨a, set, hset, ha⟩

variable [Std.TransOrd κ] [Std.LawfulEqOrd κ]

theorem mem_keys_of_relates {t : Table κ (SortedSet α)} {k : κ} {a : α} (h : t.Relates k a) :
    k ∈ t.keys := by
  obtain ⟨set, hset, -⟩ := h
  exact mem_keys_iff.mpr ⟨set, hset⟩

variable [DecidableEq κ]

theorem relates_update {t : Table κ (SortedSet α)} {k k' : κ} {f : SortedSet α → SortedSet α}
    {a : α} :
    (t.update k' .empty f).Relates k a ↔
      if k = k' then a ∈ f ((t.get? k).getD .empty) else t.Relates k a := by
  rw [Relates, get?_update]
  split
  · simp
  · rfl

variable [Std.TransOrd α] [Std.LawfulEqOrd α]

theorem relates_update_insert {t : Table κ (SortedSet α)} {k k' : κ} {a b : α} :
    (t.update k' .empty (·.insert b)).Relates k a ↔ t.Relates k a ∨ (k = k' ∧ a = b) := by
  rw [relates_update, SortedSet.mem_insert, ← relates_iff_mem_getD]
  split <;> simp_all [or_comm]

theorem relates_update_union {t : Table κ (SortedSet α)} {k k' : κ} {a : α} {set : SortedSet α} :
    (t.update k' .empty (·.union set)).Relates k a ↔ t.Relates k a ∨ (k = k' ∧ a ∈ set) := by
  rw [relates_update, SortedSet.mem_union, ← relates_iff_mem_getD]
  split <;> simp_all

omit [Std.TransOrd α] [Std.LawfulEqOrd α] in
theorem IsProper.update {t : Table κ (SortedSet α)} (h : t.IsProper) {k : κ}
    {f : SortedSet α → SortedSet α} (hf : ∀ set, ∃ a, a ∈ f set) :
    (t.update k .empty f).IsProper := by
  intro k' set hset
  rw [get?_update] at hset
  split at hset
  · cases hset
    exact hf _
  · exact h k' set hset

omit [DecidableEq κ] [Std.LawfulEqOrd α] in
theorem eq_of_relates_iff {t u : Table κ (SortedSet α)} (ht : t.IsProper) (hu : u.IsProper)
    (h : ∀ k a, t.Relates k a ↔ u.Relates k a) : t = u := by
  apply ext
  intro k
  cases htk : t.get? k with
  | none =>
      cases huk : u.get? k with
      | none => rfl
      | some set =>
          obtain ⟨a, ha⟩ := hu.exists_relates huk
          obtain ⟨set', hset', -⟩ := (h k a).mpr ha
          rw [htk] at hset'
          cases hset'
  | some set =>
      obtain ⟨a, ha⟩ := ht.exists_relates htk
      obtain ⟨set', huk, -⟩ := (h k a).mp ha
      rw [huk, Option.some.injEq]
      apply SortedSet.ext
      intro b
      have hb := h k b
      rw [Relates, Relates, htk, huk] at hb
      simpa using hb

end DepSolver.Table
