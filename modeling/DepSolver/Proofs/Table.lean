import DepSolver.Proofs.Sorting
import DepSolver.Table
import Mathlib.Algebra.BigOperators.Group.List.Basic
import Mathlib.Algebra.GroupWithZero.Nat
import Mathlib.Data.List.Induction
import Mathlib.Data.List.Perm.Subperm

/-!
Tables by their lookups. Each operation is described by what it does to the value at a key, and two
tables with the same lookups are equal.
-/

namespace DepSolver.Table

variable {κ : Type} {α β : Type} [Ord κ]

theorem pairwise_keys (t : Table κ α) : t.keys.Pairwise fun a b => compare a b = .lt :=
  List.pairwise_map.mpr t.sorted

theorem nodup_keys [Std.ReflOrd κ] (t : Table κ α) : t.keys.Nodup :=
  Sorting.nodup_of_pairwise_lt t.pairwise_keys

theorem ext_mem [Std.TransOrd κ] {t u : Table κ α} (h : ∀ x, x ∈ t.entries ↔ x ∈ u.entries) :
    t = u := by
  have hlist : t.entries = u.entries :=
    @Sorting.eq_of_mem_iff _ (compareOn Prod.fst) _ _ _ t.sorted u.sorted h
  cases t
  cases u
  simpa using hlist

theorem contains_iff {t : Table κ α} {k : κ} : t.contains k = true ↔ ∃ a, t.get? k = some a :=
  Option.isSome_iff_exists

theorem contains_eq_false_iff {t : Table κ α} {k : κ} :
    t.contains k = false ↔ t.get? k = none := by
  simp [contains]

variable [Std.TransOrd κ] [Std.LawfulEqOrd κ]

theorem find?_eq_some_iff {k : κ} {a : α} {l : List (κ × α)}
    (hsorted : l.Pairwise fun x y => compare x.1 y.1 = .lt) :
    find? k l = some a ↔ (k, a) ∈ l := by
  induction l with
  | nil => simp [find?]
  | cons head rest ih =>
      obtain ⟨k', b⟩ := head
      obtain ⟨hlater, hrest⟩ := List.pairwise_cons.mp hsorted
      rw [find?, List.mem_cons]
      split
      · rename_i hlt
        have hne : k ≠ k' := by
          rintro rfl
          simp at hlt
        have hmem : (k, a) ∉ rest := fun hmem =>
          absurd (hlater _ hmem) (Std.OrientedCmp.not_lt_of_lt hlt)
        simp [hne, hmem]
      · rename_i heq
        obtain rfl := Std.LawfulEqCmp.eq_of_compare heq
        have hmem : (k, a) ∉ rest := by
          intro hmem
          have := hlater _ hmem
          simp at this
        simp [hmem, eq_comm]
      · rename_i hgt
        have hne : k ≠ k' := by
          rintro rfl
          simp at hgt
        rw [ih hrest]
        simp [hne]

theorem get?_eq_some_iff {t : Table κ α} {k : κ} {a : α} :
    t.get? k = some a ↔ (k, a) ∈ t.entries :=
  find?_eq_some_iff t.sorted

theorem filter_key_eq [DecidableEq κ] (t : Table κ α) (k : κ) :
    t.entries.filter (fun x => x.1 = k) = ((t.get? k).map fun a => (k, a)).toList := by
  have hnodup : (t.entries.filter fun x => x.1 = k).Nodup :=
    (List.Nodup.of_map _ t.nodup_keys).filter _
  have hmem : ∀ x, x ∈ t.entries.filter (fun x => x.1 = k) ↔
      x ∈ ((t.get? k).map fun a => (k, a)).toList := by
    rintro ⟨k', a⟩
    simp only [List.mem_filter, decide_eq_true_eq, Option.mem_toList, Option.map_eq_some_iff,
      Prod.mk.injEq, ← get?_eq_some_iff]
    constructor
    · rintro ⟨hget, rfl⟩
      exact ⟨a, hget, rfl, rfl⟩
    · rintro ⟨a', hget, rfl, rfl⟩
      exact ⟨hget, rfl⟩
  have hperm := (List.perm_ext_iff_of_nodup hnodup (by cases t.get? k <;> simp)).mpr hmem
  cases hget : t.get? k with
  | none => simpa [hget] using hperm
  | some a => simpa [hget] using hperm

theorem ext {t u : Table κ α} (h : ∀ k, t.get? k = u.get? k) : t = u := by
  apply ext_mem
  rintro ⟨k, a⟩
  rw [← get?_eq_some_iff, ← get?_eq_some_iff, h]

theorem mem_keys_iff {t : Table κ α} {k : κ} : k ∈ t.keys ↔ ∃ a, t.get? k = some a := by
  simp [keys, get?_eq_some_iff]

theorem mem_values_iff {t : Table κ α} {a : α} : a ∈ t.values ↔ ∃ k, t.get? k = some a := by
  simp [values, get?_eq_some_iff]

theorem find?_place_of_ne {k k' : κ} (hne : k ≠ k') (a : α) (l : List (κ × α)) :
    find? k (place k' a l) = find? k l := by
  have hcompare : compare k k' ≠ .eq := fun heq => hne (Std.LawfulEqCmp.eq_of_compare heq)
  induction l with
  | nil =>
      rw [place, find?.eq_def]
      cases h : compare k k' <;> simp_all [find?]
  | cons head rest ih =>
      obtain ⟨k'', b⟩ := head
      rw [place]
      split
      · rename_i hlt
        rw [find?]
        split
        · rename_i hlt'
          rw [find?, Std.TransCmp.lt_trans hlt' hlt]
        · rename_i heq
          exact absurd heq hcompare
        · rfl
      · rename_i heq
        obtain rfl := Std.LawfulEqCmp.eq_of_compare heq
        rw [find?, find?]
        split <;> simp_all
      · rw [find?, find?, ih]

variable [DecidableEq κ]

theorem get?_insert (t : Table κ α) (k k' : κ) (a : α) :
    (t.insert k' a).get? k = if k = k' then some a else t.get? k := by
  split
  · rename_i heq
    rw [heq, get?_insert_self]
  · rename_i hne
    exact find?_place_of_ne hne a t.entries

theorem mem_of_get?_ofList {l : List (κ × α)} {k : κ} {a : α} (h : (ofList l).get? k = some a) :
    (k, a) ∈ l := by
  have hfold : ∀ t : Table κ α, (l.foldl (fun t x => t.insert x.1 x.2) t).get? k = some a →
      (k, a) ∈ l ∨ t.get? k = some a := by
    clear h
    induction l with
    | nil => exact fun t ht => .inr ht
    | cons x rest ih =>
        intro t ht
        rcases ih _ ht with hmem | hinsert
        · exact .inl (List.mem_cons_of_mem _ hmem)
        · rw [get?_insert] at hinsert
          split at hinsert
          · rename_i heq
            cases hinsert
            exact .inl (List.mem_cons.mpr (.inl (Prod.ext heq rfl)))
          · exact .inr hinsert
  exact (hfold empty h).resolve_right (by rw [get?_empty]; exact fun heq => nomatch heq)

theorem mem_keys_ofList {l : List (κ × α)} {k : κ} : k ∈ (ofList l).keys ↔ k ∈ l.map (·.1) := by
  have hfold : ∀ t : Table κ α, k ∈ (l.foldl (fun t x => t.insert x.1 x.2) t).keys ↔
      k ∈ l.map (·.1) ∨ k ∈ t.keys := by
    induction l with
    | nil => simp
    | cons x rest ih =>
        intro t
        rw [List.foldl_cons, ih, mem_keys_iff, get?_insert, List.map_cons, List.mem_cons,
          mem_keys_iff]
        by_cases hk : k = x.1 <;> simp [hk]
  rw [ofList, hfold, or_iff_left]
  exact List.not_mem_nil

theorem get?_ofList_cons (x : κ × α) (l : List (κ × α)) (k : κ) :
    (ofList (x :: l)).get? k =
      ((ofList l).get? k).or (if k = x.1 then some x.2 else none) := by
  have hfold : ∀ t : Table κ α, (l.foldl (fun t x => t.insert x.1 x.2) t).get? k =
      ((ofList l).get? k).or (t.get? k) := by
    induction l using List.reverseRecOn with
    | nil => exact fun _ => rfl
    | append_singleton l y ih =>
        intro t
        rw [ofList, List.foldl_concat, List.foldl_concat, get?_insert, get?_insert, ih t, ← ofList]
        split <;> rfl
  rw [ofList, List.foldl_cons, hfold, get?_insert, get?_empty]

theorem get?_extend (t u : Table κ α) (k : κ) : (t.extend u).get? k = (u.get? k).or (t.get? k) := by
  have hfold : ∀ l : List (κ × α), l.Pairwise (fun x y => compare x.1 y.1 = .lt) →
      ∀ t : Table κ α, (l.foldl (fun t x => t.insert x.1 x.2) t).get? k =
        (find? k l).or (t.get? k) := by
    intro l
    induction l with
    | nil => exact fun _ _ => rfl
    | cons x rest ih =>
        intro hsorted t
        obtain ⟨k', a⟩ := x
        obtain ⟨hlater, hrest⟩ := List.pairwise_cons.mp hsorted
        have hgreater : compare k k' ≠ .gt → find? k rest = none := by
          intro hle
          rw [Option.eq_none_iff_forall_ne_some]
          intro b hb
          have hlt := hlater _ ((find?_eq_some_iff hrest).mp hb)
          exact hle (Std.OrientedCmp.gt_iff_lt.mpr hlt)
        rw [List.foldl_cons, ih hrest, get?_insert, find?]
        cases hcompare : compare k k' with
        | lt =>
            have hne : k ≠ k' := by
              rintro rfl
              simp at hcompare
            rw [hgreater (by simp [hcompare]), if_neg hne]
        | eq =>
            rw [hgreater (by simp [hcompare]), if_pos (Std.LawfulEqCmp.eq_of_compare hcompare)]
            rfl
        | gt =>
            have hne : k ≠ k' := by
              rintro rfl
              simp at hcompare
            rw [if_neg hne]
  exact hfold u.entries u.sorted t

theorem get?_update (t : Table κ α) (k k' : κ) (first : α) (f : α → α) :
    (t.update k' first f).get? k =
      if k = k' then some (f ((t.get? k).getD first)) else t.get? k := by
  rw [update, get?_insert]
  split
  · rename_i heq
    rw [heq]
  · rfl

theorem insert_eq_self {t : Table κ α} {k : κ} {a : α} (h : t.get? k = some a) :
    t.insert k a = t := by
  apply ext
  intro k'
  rw [get?_insert]
  split
  · rename_i heq
    rw [heq, h]
  · rfl

omit [DecidableEq κ] in
theorem get?_map (t : Table κ α) (f : κ → α → β) (k : κ) :
    (t.map f).get? k = (t.get? k).map (f k) := by
  cases h : t.get? k with
  | none =>
      rw [Option.map_none, Option.eq_none_iff_forall_ne_some]
      intro b hb
      rw [get?_eq_some_iff, map, List.mem_map] at hb
      obtain ⟨⟨k', a⟩, hmem, heq⟩ := hb
      obtain ⟨rfl, -⟩ := Prod.mk.inj heq
      rw [get?_eq_some_iff.mpr hmem] at h
      cases h
  | some a =>
      rw [Option.map_some, get?_eq_some_iff, map, List.mem_map]
      exact ⟨(k, a), get?_eq_some_iff.mp h, rfl⟩

omit [DecidableEq κ] in
theorem get?_filter (t : Table κ α) (keep : κ → α → Bool) (k : κ) :
    (t.filter keep).get? k = (t.get? k).filter (keep k) := by
  ext a
  rw [Option.filter_eq_some_iff, get?_eq_some_iff, get?_eq_some_iff, filter, List.mem_filter]

omit [DecidableEq κ] in
theorem map_map {γ : Type} (t : Table κ α) (f : κ → α → β) (g : κ → β → γ) :
    (t.map f).map g = t.map fun k a => g k (f k a) := by
  apply ext
  intro k
  rw [get?_map, get?_map, get?_map, Option.map_map]
  rfl

omit [Std.TransOrd κ] [Std.LawfulEqOrd κ] [DecidableEq κ] in
theorem values_map (t : Table κ α) (f : α → β) :
    (t.map fun _ a => f a).values = t.values.map f := by
  rw [values, values, map, List.map_map, List.map_map]
  rfl

omit [Std.TransOrd κ] [Std.LawfulEqOrd κ] [DecidableEq κ] in
theorem size_map (t : Table κ α) (f : κ → α → β) : (t.map f).size = t.size :=
  List.length_map _

theorem mem_keys_insert {t : Table κ α} {k k' : κ} {a : α} :
    k ∈ (t.insert k' a).keys ↔ k = k' ∨ k ∈ t.keys := by
  rw [mem_keys_iff, mem_keys_iff, get?_insert]
  split <;> simp_all

theorem size_insert_of_contains {t : Table κ α} {k : κ} (h : t.contains k = true) (a : α) :
    (t.insert k a).size = t.size := by
  have hmem : k ∈ t.keys := mem_keys_iff.mpr (contains_iff.mp h)
  have hperm : (t.insert k a).keys.Perm t.keys := by
    rw [List.perm_ext_iff_of_nodup (nodup_keys _) (nodup_keys _)]
    intro k'
    rw [mem_keys_insert]
    exact or_iff_right_of_imp fun heq => heq ▸ hmem
  simpa [keys, size] using hperm.length_eq

theorem size_insert_of_not_contains {t : Table κ α} {k : κ} (h : t.contains k = false) (a : α) :
    (t.insert k a).size = t.size + 1 := by
  have hmem : k ∉ t.keys := by
    rw [mem_keys_iff, contains_eq_false_iff.mp h]
    simp
  have hperm : (t.insert k a).keys.Perm (k :: t.keys) := by
    rw [List.perm_ext_iff_of_nodup (nodup_keys _) (List.nodup_cons.mpr ⟨hmem, nodup_keys t⟩)]
    intro k'
    rw [mem_keys_insert, List.mem_cons]
  simpa [keys, size] using hperm.length_eq

theorem size_insert_le (t : Table κ α) (k : κ) (a : α) : (t.insert k a).size ≤ t.size + 1 := by
  cases h : t.contains k with
  | true => exact Nat.le_succ_of_le (Nat.le_of_eq (size_insert_of_contains h a))
  | false => exact Nat.le_of_eq (size_insert_of_not_contains h a)

omit [Std.TransOrd κ] [DecidableEq κ] in
theorem size_lt_of_keys_subset {t : Table κ α} {u : Table κ β} (hsub : t.keys ⊆ u.keys) {k : κ}
    (hmem : k ∈ u.keys) (hnot : k ∉ t.keys) : t.size < u.size := by
  have hnodup : (k :: t.keys).Nodup := List.nodup_cons.mpr ⟨hnot, nodup_keys t⟩
  have hle := (hnodup.subperm (List.cons_subset.mpr ⟨hmem, hsub⟩)).length_le
  rwa [List.length_cons, keys, keys, List.length_map, List.length_map] at hle

omit [Std.TransOrd κ] [Std.LawfulEqOrd κ] [DecidableEq κ] in
theorem sum_place_add {f : α → Nat} {k : κ} {a b : α} {l : List (κ × α)}
    (h : find? k l = some a) :
    ((place k b l).map fun x => f x.2).sum + f a = (l.map fun x => f x.2).sum + f b := by
  induction l with
  | nil => cases h
  | cons head rest ih =>
      obtain ⟨k', c⟩ := head
      rw [find?] at h
      rw [place]
      split at h
      · cases h
      · cases h
        simp only [List.map_cons, List.sum_cons]
        omega
      · have hih := ih h
        simp only [List.map_cons, List.sum_cons]
        omega

omit [Std.LawfulEqOrd κ] [DecidableEq κ] in
theorem sum_values_insert {t : Table κ α} {f : α → Nat} {k : κ} {a : α}
    (h : t.get? k = some a) (b : α) :
    ((t.insert k b).values.map f).sum + f a = (t.values.map f).sum + f b := by
  rw [values, values, List.map_map, List.map_map]
  exact sum_place_add h

end DepSolver.Table
