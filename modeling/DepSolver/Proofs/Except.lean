import Mathlib.Data.List.Basic

/-!
Steps that may fail, one after another. A result shows the results of the steps.
-/

namespace DepSolver

variable {ε α β : Type}

theorem exists_eq_ok_iff_isOk {r : Except ε α} : (∃ a, r = .ok a) ↔ r.isOk = true := by
  cases r <;> simp [Except.isOk, Except.toBool]

theorem exists_of_bind_eq_ok {x : Except ε α} {f : α → Except ε β} {b : β}
    (h : x >>= f = .ok b) : ∃ a, x = .ok a ∧ f a = .ok b := by
  cases x with
  | error e => cases h
  | ok a => exact ⟨a, rfl, h⟩

theorem bind_eq_ok_iff {x : Except ε α} {f : α → Except ε β} {b : β} :
    x >>= f = .ok b ↔ ∃ a, x = .ok a ∧ f a = .ok b := by
  constructor
  · exact exists_of_bind_eq_ok
  · rintro ⟨a, rfl, h⟩
    exact h

theorem run_bind_eq {σ : Type} (x : ExceptT ε (StateM σ) α) (f : α → ExceptT ε (StateM σ) β)
    (s : σ) : (x >>= f).run.run s =
      match x.run.run s with
      | (.ok a, s') => (f a).run.run s'
      | (.error e, s') => (.error e, s') := by
  change (match x.run.run s with
    | (r, s') => (ExceptT.bindCont f r).run s') = _
  rcases x.run.run s with ⟨r, s'⟩
  cases r <;> rfl

theorem exists_of_map_eq_ok {x : Except ε α} {f : α → β} {b : β} (h : x.map f = .ok b) :
    ∃ a, x = .ok a ∧ f a = b := by
  cases x with
  | error e => cases h
  | ok a => exact ⟨a, rfl, Except.ok.inj h⟩

theorem mapM_cons_eq_ok_iff {f : α → Except ε β} {a : α} {l : List α} {l' : List β} :
    (a :: l).mapM f = .ok l' ↔
      ∃ b others, f a = .ok b ∧ l.mapM f = .ok others ∧ l' = b :: others := by
  simp only [List.mapM_cons, bind_eq_ok_iff, exists_and_left]
  simp [pure, Except.pure, eq_comm]

theorem forall₂_of_mapM_eq_ok {f : α → Except ε β} {l : List α} {l' : List β}
    (h : l.mapM f = .ok l') : List.Forall₂ (fun a b => f a = .ok b) l l' := by
  induction l generalizing l' with
  | nil =>
      rw [List.mapM_nil] at h
      cases h
      exact .nil
  | cons a l ih =>
      obtain ⟨b, others, hb, hothers, rfl⟩ := mapM_cons_eq_ok_iff.mp h
      exact .cons hb (ih hothers)

theorem mem_iff_of_mapM_eq_ok {f : α → Except ε β} {l : List α} {l' : List β}
    (h : l.mapM f = .ok l') {b : β} : b ∈ l' ↔ ∃ a ∈ l, f a = .ok b := by
  have hpairs := forall₂_of_mapM_eq_ok h
  clear h
  induction hpairs with
  | nil => simp
  | cons hab _ ih => simp [ih, hab, eq_comm]

theorem exists_mapM_eq_ok_iff {f : α → Except ε β} {l : List α} :
    (∃ l', l.mapM f = .ok l') ↔ ∀ a ∈ l, ∃ b, f a = .ok b := by
  induction l with
  | nil => exact iff_of_true ⟨[], List.mapM_nil⟩ nofun
  | cons a l ih =>
      rw [List.forall_mem_cons, ← ih]
      simp only [mapM_cons_eq_ok_iff]
      constructor
      · rintro ⟨l', b, others, hb, hothers, -⟩
        exact ⟨⟨b, hb⟩, others, hothers⟩
      · rintro ⟨⟨b, hb⟩, others, hothers⟩
        exact ⟨_, b, others, hb, hothers, rfl⟩

theorem mapM_map_eq {γ : Type} {f : α → Except ε β} {g : β → γ} (l : List α) :
    l.mapM (fun a => (f a).map g) = (l.mapM f).map (List.map g) := by
  induction l with
  | nil => rfl
  | cons a l ih =>
      rw [List.mapM_cons, List.mapM_cons, ih]
      cases f a with
      | error e => rfl
      | ok b => cases l.mapM f <;> rfl

theorem mapM_map_eq_ok {f : α → β} {g : β → Except ε α} {l : List α}
    (h : ∀ a ∈ l, g (f a) = .ok a) : (l.map f).mapM g = .ok l := by
  induction l with
  | nil => rfl
  | cons a l ih =>
      obtain ⟨ha, hl⟩ := List.forall_mem_cons.mp h
      rw [List.map_cons, List.mapM_cons, ha, ih hl]
      rfl

theorem foldlM_bind_eq_ok_iff {σ : Type} {f : α → Except ε β} {g : σ → β → Except ε σ}
    {l : List α} {s s' : σ} :
    l.foldlM (fun s a => f a >>= g s) s = .ok s' ↔
      ∃ l', l.mapM f = .ok l' ∧ l'.foldlM g s = .ok s' := by
  induction l generalizing s with
  | nil => simp [pure, Except.pure]
  | cons a l ih =>
      simp only [List.foldlM_cons, bind_eq_ok_iff, ih, mapM_cons_eq_ok_iff]
      constructor
      · rintro ⟨next, ⟨b, hb, hnext⟩, others, hothers, h⟩
        exact ⟨_, ⟨b, others, hb, hothers, rfl⟩, bind_eq_ok_iff.mpr ⟨next, hnext, h⟩⟩
      · rintro ⟨_, ⟨b, others, hb, hothers, rfl⟩, h⟩
        obtain ⟨next, hnext, h⟩ := exists_of_bind_eq_ok h
        exact ⟨next, ⟨b, hb, hnext⟩, others, hothers, h⟩

end DepSolver
