import DepSolver.Text.Basic
import Mathlib.Data.List.Basic
import Mathlib.Data.List.DropRight

/-!
Texts that are put together from parts. A part is told from what follows it by the kind of its
characters, so that the whole tells the parts. Blanks at the ends of a text are dropped at once.
-/

namespace DepSolver.Text

variable {α : Type}

theorem takeWhile_append_of_head {p : α → Bool} {a u : List α} (ha : ∀ x ∈ a, p x = true)
    (hu : ∀ x ∈ u.head?, p x = false) : (a ++ u).takeWhile p = a := by
  rw [List.takeWhile_append_of_pos ha]
  cases u with
  | nil => rw [List.takeWhile_nil, List.append_nil]
  | cons x rest => rw [List.takeWhile_cons_of_neg (by simp [hu x rfl]), List.append_nil]

theorem dropWhile_append_of_head {p : α → Bool} {a u : List α} (ha : ∀ x ∈ a, p x = true)
    (hu : ∀ x ∈ u.head?, p x = false) : (a ++ u).dropWhile p = u := by
  rw [List.dropWhile_append_of_pos ha]
  cases u with
  | nil => rfl
  | cons x rest => exact List.dropWhile_cons_of_neg (by simp [hu x rfl])

theorem map_eq_map_of_forall {β γ : Type} {f : α → β} {g : α → γ} {l l' : List α}
    (hfg : ∀ a ∈ l, ∀ b ∈ l', f a = f b → g a = g b) (h : l.map f = l'.map f) :
    l.map g = l'.map g := by
  induction l generalizing l' with
  | nil => rw [List.map_eq_nil_iff.mp h.symm]
  | cons a l ih =>
      cases l' with
      | nil => cases h
      | cons b l' =>
          obtain ⟨hhead, htail⟩ := List.cons.inj h
          rw [List.map_cons, List.map_cons, hfg a List.mem_cons_self b List.mem_cons_self hhead,
            ih (fun x hx y hy => hfg x (List.mem_cons_of_mem _ hx) y (List.mem_cons_of_mem _ hy))
              htail]

theorem append_inj_of_run {p : α → Bool} {a b u v : List α} (ha : ∀ x ∈ a, p x = true)
    (hb : ∀ x ∈ b, p x = true) (hu : ∀ x ∈ u.head?, p x = false)
    (hv : ∀ x ∈ v.head?, p x = false) (h : a ++ u = b ++ v) : a = b ∧ u = v := by
  have hab : a = b := by
    rw [← takeWhile_append_of_head ha hu, h, takeWhile_append_of_head hb hv]
  subst hab
  exact ⟨rfl, List.append_cancel_left h⟩

theorem mem_intercalate {sep x : α} {l : List (List α)} (h : x ∈ [sep].intercalate l) :
    x = sep ∨ ∃ part ∈ l, x ∈ part := by
  induction l with
  | nil => simp at h
  | cons part rest ih =>
      cases rest with
      | nil => exact .inr ⟨part, List.mem_cons_self, by simpa using h⟩
      | cons next rest =>
          rw [List.intercalate_cons_cons, List.mem_append, List.mem_append] at h
          rcases h with (h | h) | h
          · exact .inr ⟨part, List.mem_cons_self, h⟩
          · exact .inl (List.mem_singleton.mp h)
          · obtain hsep | ⟨other, hother, hx⟩ := ih h
            · exact .inl hsep
            · exact .inr ⟨other, List.mem_cons_of_mem _ hother, hx⟩

variable [DecidableEq α] {c : α}

theorem append_cons_inj {a b u v : List α} (ha : c ∉ a) (hb : c ∉ b)
    (h : a ++ c :: u = b ++ c :: v) : a = b ∧ u = v := by
  have hrun : ∀ l : List α, c ∉ l → ∀ x ∈ l, decide (x ≠ c) = true := by
    intro l hl x hx
    rw [decide_eq_true_eq]
    rintro rfl
    exact hl hx
  obtain ⟨hab, huv⟩ := append_inj_of_run (hrun a ha) (hrun b hb) (by simp) (by simp) h
  exact ⟨hab, (List.cons.inj huv).2⟩

theorem append_cons_inj_of_last {a b u v : List α} (hu : c ∉ u) (hv : c ∉ v)
    (h : a ++ c :: u = b ++ c :: v) : a = b ∧ u = v := by
  have hreverse : u.reverse ++ c :: a.reverse = v.reverse ++ c :: b.reverse := by
    simpa using congrArg List.reverse h
  obtain ⟨huv, hab⟩ := append_cons_inj (by simpa using hu) (by simpa using hv) hreverse
  exact ⟨List.reverse_inj.mp hab, List.reverse_inj.mp huv⟩

theorem splitOn_flatMap_concat {l : List (List α)} (h : ∀ part ∈ l, c ∉ part) :
    List.splitOn c (l.flatMap (· ++ [c])) = l ++ [[]] := by
  induction l with
  | nil => rfl
  | cons part rest ih =>
      obtain ⟨hpart, hrest⟩ := List.forall_mem_cons.mp h
      rw [List.flatMap_cons, List.append_assoc, List.singleton_append,
        List.splitOn_append_cons_self_of_not_mem hpart, ih hrest, List.cons_append]

omit [DecidableEq α] in
theorem mem_of_mem_splitAt {sep c : Char} {piece l : List Char} (hpiece : piece ∈ splitAt sep l)
    (hc : c ∈ piece) : c ∈ l ∧ c ≠ sep := by
  induction l generalizing piece with
  | nil => simp_all [splitAt]
  | cons a rest ih =>
      rw [splitAt] at hpiece
      split at hpiece
      · grind
      · cases hsplit : splitAt sep rest with
        | nil => grind
        | cons first pieces => grind

theorem eq_of_join_lines_eq {l l' : List String} (hl : ∀ line ∈ l, '\n' ∉ line.toList)
    (hl' : ∀ line ∈ l', '\n' ∉ line.toList)
    (h : String.join (l.map (· ++ "\n")) = String.join (l'.map (· ++ "\n"))) : l = l' := by
  have hchars : ∀ lines : List String, (String.join (lines.map (· ++ "\n"))).toList =
      (lines.map String.toList).flatMap (· ++ ['\n']) := by
    intro lines
    rw [String.toList_join, List.flatMap_map, List.flatMap_map]
    simp only [String.toList_append]
    rfl
  have hsplit := congrArg (List.splitOn '\n' ·.toList) h
  simp only [hchars] at hsplit
  rw [splitOn_flatMap_concat (by simpa using hl), splitOn_flatMap_concat (by simpa using hl')]
    at hsplit
  exact List.map_injective_iff.mpr (fun _ _ => String.toList_injective)
    (List.append_cancel_right hsplit)

/-! ### Parts at the ends and in between -/

theorem dropStart?_eq_some_iff {start l rest : List Char} :
    dropStart? start l = some rest ↔ l = start ++ rest := by
  induction start generalizing l with
  | nil => simp [dropStart?]
  | cons a start ih =>
      cases l with
      | nil => simp [dropStart?]
      | cons b l =>
          rw [dropStart?]
          split
          · rename_i heq
            simp [ih, heq]
          · rename_i hne
            simp [Ne.symm hne]

theorem dropStart?_eq_none_iff {start l : List Char} :
    dropStart? start l = none ↔ ¬ start <+: l := by
  simp only [Option.eq_none_iff_forall_ne_some, Ne, dropStart?_eq_some_iff]
  exact ⟨fun h ⟨rest, hrest⟩ => h rest hrest.symm, fun h rest hrest => h ⟨rest, hrest.symm⟩⟩

theorem dropEnding?_eq_some_iff {ending l before : List Char} :
    dropEnding? ending l = some before ↔ l = before ++ ending := by
  rw [dropEnding?, Option.map_eq_some_iff]
  constructor
  · rintro ⟨rest, hrest, rfl⟩
    rw [← List.reverse_inj, dropStart?_eq_some_iff.mp hrest, List.reverse_append,
      List.reverse_reverse]
  · rintro rfl
    exact ⟨before.reverse, dropStart?_eq_some_iff.mpr List.reverse_append,
      before.reverse_reverse⟩

theorem cut?_append {word before after : List Char} (hword : word ≠ [])
    (h : ∀ start, start <:+ before → start ≠ [] → ¬ word <+: start ++ word ++ after) :
    cut? word (before ++ word ++ after) = some (before, after) := by
  induction before with
  | nil =>
      obtain ⟨c, rest, rfl⟩ := List.exists_cons_of_ne_nil hword
      have hdrop : dropStart? (c :: rest) (c :: rest ++ after) = some after :=
        dropStart?_eq_some_iff.mpr rfl
      rw [List.nil_append, List.cons_append, cut?, ← List.cons_append, hdrop]
  | cons c before ih =>
      have hdrop : dropStart? word (c :: before ++ word ++ after) = none := by
        rw [Option.eq_none_iff_forall_ne_some]
        intro rest hrest
        exact h (c :: before) List.suffix_rfl (by simp)
          ⟨rest, (dropStart?_eq_some_iff.mp hrest).symm⟩
      have hrest := ih fun start hstart => h start (hstart.trans (List.suffix_cons c before))
      rw [List.cons_append, List.cons_append, cut?]
      rw [List.cons_append, List.cons_append] at hdrop
      rw [hdrop, hrest]
      rfl

theorem append_injective (s : String) : Function.Injective (s ++ ·) :=
  fun _ _ h => (String.append_right_inj s).mp h

/-! ### Blanks at the ends of a text -/

theorem strip_strip (drop : Char → Bool) (l : List Char) :
    strip drop (strip drop l) = strip drop l := by
  have hinner : (strip drop l).dropWhile drop = strip drop l := by
    rw [List.dropWhile_eq_self_iff]
    intro hlength
    obtain ⟨rest, hrest⟩ : strip drop l <+: l.dropWhile drop :=
      List.rdropWhile_prefix drop _
    have hfirst := List.dropWhile_get_zero_not drop l (by rw [← hrest]; simp; omega)
    have hget : (l.dropWhile drop)[0]? = some (strip drop l)[0] := by
      rw [← hrest, List.getElem?_append_left hlength, List.getElem?_eq_getElem hlength]
    rwa [List.get_eq_getElem, (List.getElem_eq_iff _).mpr hget] at hfirst
  have houter : dropEnd drop (strip drop l) = strip drop l := List.rdropWhile_idempotent drop _
  rw [strip, hinner, houter]

theorem trim_trim (s : String) : trim (trim s) = trim s := by
  rw [trim, trim, String.toList_ofList, strip_strip]

end DepSolver.Text
