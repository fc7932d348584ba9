import DepSolver.Proofs.Text
import DepSolver.Semver.Parser

/-!
The texts of versions. Plain versions are told apart by their texts, also where more text follows.
-/

namespace DepSolver.Semver

/-- The fields of the version have only characters that fields are read from. -/
def IsPlain (v : Semver) : Prop :=
  ∀ field ∈ v.pre ++ v.build, ∀ c ∈ field.toList, isFieldChar c = true

instance (v : Semver) : Decidable v.IsPlain :=
  inferInstanceAs (Decidable (∀ field ∈ v.pre ++ v.build, ∀ c ∈ field.toList, _))

/-- A character that the text of a version may have. -/
def isTextChar (c : Char) : Bool := isFieldChar c || c = '.' || c = '+'

/-! ### Fields -/

/-- Fields with the mark before them; nothing if there are none. -/
def markedFields (mark : Char) (fields : List String) : List Char :=
  if fields.isEmpty then [] else mark :: ['.'].intercalate (fields.map String.toList)

private theorem toList_markedFields {mark : String} {c : Char} (h : mark.toList = [c])
    (fields : List String) :
    (if fields.isEmpty then "" else mark ++ ".".intercalate fields).toList =
      markedFields c fields := by
  rw [markedFields]
  split
  · rfl
  · rw [String.toList_append, String.toList_intercalate, h]
    rfl

theorem mem_markedFields {mark c : Char} {fields : List String} (h : c ∈ markedFields mark fields) :
    c = mark ∨ c = '.' ∨ ∃ field ∈ fields, c ∈ field.toList := by
  rw [markedFields] at h
  split at h
  · cases h
  · rcases List.mem_cons.mp h with hmark | h
    · exact .inl hmark
    · rcases Text.mem_intercalate h with hdot | ⟨part, hpart, hc⟩
      · exact .inr (.inl hdot)
      · obtain ⟨field, hfield, rfl⟩ := List.mem_map.mp hpart
        exact .inr (.inr ⟨field, hfield, hc⟩)

theorem head?_markedFields {mark c : Char} {fields : List String}
    (h : c ∈ (markedFields mark fields).head?) : c = mark := by
  rw [markedFields] at h
  split at h
  · cases h
  · simpa using h.symm

private theorem eq_of_markedFields_eq {mark : Char} {l l' : List String}
    (hl : ∀ field ∈ l, '.' ∉ field.toList) (hl' : ∀ field ∈ l', '.' ∉ field.toList)
    (h : markedFields mark l = markedFields mark l') : l = l' := by
  rw [markedFields, markedFields] at h
  cases l with
  | nil =>
      cases l' with
      | nil => rfl
      | cons => simp at h
  | cons first rest =>
      cases l' with
      | nil => simp at h
      | cons first' rest' =>
          have hsplit := congrArg (List.splitOn '.') (List.cons.inj h).2
          rw [List.splitOn_intercalate _ (by simpa using hl) (by simp),
            List.splitOn_intercalate _ (by simpa using hl') (by simp)] at hsplit
          exact List.map_injective_iff.mpr (fun _ _ => String.toList_injective) hsplit

/-! ### Versions -/

theorem toList_toString (v : Semver) :
    (toString v).toList = v.major.toNat.repr.toList ++ '.' :: (v.minor.toNat.repr.toList ++
      '.' :: (v.patch.toNat.repr.toList ++
        (markedFields '-' v.pre ++ markedFields '+' v.build))) := by
  change (s!"{v.major}.{v.minor}.{v.patch}" ++ _ ++ _ : String).toList = _
  rw [String.toList_append, String.toList_append, toList_markedFields rfl,
    toList_markedFields rfl]
  simp only [String.toList_append, List.append_assoc]
  rfl

theorem isDigit_of_mem_repr {n : Nat} {c : Char} (h : c ∈ n.repr.toList) : c.isDigit = true := by
  rw [Nat.toList_repr] at h
  exact Nat.isDigit_of_mem_toDigits (by decide) (by decide) h

private theorem eq_of_repr_append_eq {m n : Nat} {u v : List Char} (hu :
    ∀ c ∈ u.head?, c.isDigit = false)
    (hv : ∀ c ∈ v.head?, c.isDigit = false) (h : m.repr.toList ++ u = n.repr.toList ++ v) :
    m = n ∧ u = v := by
  obtain ⟨hrepr, huv⟩ := Text.append_inj_of_run (fun _ => isDigit_of_mem_repr)
    (fun _ => isDigit_of_mem_repr) hu hv h
  refine ⟨?_, huv⟩
  have hvalue := congrArg (Nat.ofDigitChars 10 · 0) hrepr
  simpa only [Nat.toList_repr, Nat.ofDigitChars_toDigits (by decide : 1 < 10) (by decide)] using
    hvalue

theorem IsPlain.notMem {v : Semver} (h : v.IsPlain) (c : Char) (hc : isFieldChar c = false) :
    (∀ field ∈ v.pre, c ∉ field.toList) ∧ ∀ field ∈ v.build, c ∉ field.toList := by
  have hfield : ∀ field ∈ v.pre ++ v.build, c ∉ field.toList := by
    intro field hfield hmem
    rw [h field hfield c hmem] at hc
    cases hc
  exact List.forall_mem_append.mp hfield

private theorem plus_notMem_markedFields {l : List String} (h : ∀ field ∈ l, '+' ∉ field.toList) :
    ∀ c ∈ markedFields '-' l, decide (c ≠ '+') = true := by
  intro c hc
  rw [decide_eq_true_eq]
  rintro rfl
  rcases mem_markedFields hc with heq | heq | ⟨field, hfield, hmem⟩
  · cases heq
  · cases heq
  · exact h field hfield hmem

private theorem head?_suffix {v : Semver} {c : Char}
    (h : c ∈ (markedFields '-' v.pre ++ markedFields '+' v.build).head?) : c = '-' ∨ c = '+' := by
  rw [List.head?_append, Option.mem_def, Option.or_eq_some_iff] at h
  rcases h with h | ⟨-, h⟩
  · exact .inl (head?_markedFields h)
  · exact .inr (head?_markedFields h)

theorem IsPlain.eq_of_toString_eq {v w : Semver} (hv : v.IsPlain) (hw : w.IsPlain)
    (h : toString v = toString w) : v = w := by
  have hchars := congrArg String.toList h
  rw [toList_toString, toList_toString] at hchars
  have hsuffix : ∀ u : Semver, ∀ c ∈ (markedFields '-' u.pre ++ markedFields '+' u.build).head?,
      c.isDigit = false := by
    intro u c hc
    rcases head?_suffix hc with rfl | rfl <;> rfl
  have hplus : ∀ (fields : List String), ∀ c ∈ (markedFields '+' fields).head?,
      decide (c ≠ '+') = false := by
    intro fields c hc
    rw [head?_markedFields hc]
    rfl
  obtain ⟨hmajor, hchars⟩ := eq_of_repr_append_eq (by simp) (by simp) hchars
  obtain ⟨hminor, hchars⟩ := eq_of_repr_append_eq (by simp) (by simp) (List.cons.inj hchars).2
  obtain ⟨hpatch, hchars⟩ :=
    eq_of_repr_append_eq (hsuffix v) (hsuffix w) (List.cons.inj hchars).2
  obtain ⟨hpre, hbuild⟩ := Text.append_inj_of_run
    (plus_notMem_markedFields (hv.notMem '+' rfl).1)
    (plus_notMem_markedFields (hw.notMem '+' rfl).1) (hplus _) (hplus _) hchars
  have hpreFields := eq_of_markedFields_eq (hv.notMem '.' rfl).1
    (hw.notMem '.' rfl).1 hpre
  have hbuildFields := eq_of_markedFields_eq (hv.notMem '.' rfl).2
    (hw.notMem '.' rfl).2 hbuild
  cases v
  cases w
  simp_all [UInt64.toNat_inj]

theorem IsPlain.isTextChar {v : Semver} (hv : v.IsPlain) {c : Char}
    (h : c ∈ (toString v).toList) : Semver.isTextChar c = true := by
  have hdigit : ∀ n : Nat, c ∈ n.repr.toList → Semver.isTextChar c = true := by
    intro n hc
    simp [Semver.isTextChar, isFieldChar, Char.isAlphanum, isDigit_of_mem_repr hc]
  have hfields : ∀ (mark : Char) (fields : List String), Semver.isTextChar mark = true →
      fields ⊆ v.pre ++ v.build → c ∈ markedFields mark fields →
      Semver.isTextChar c = true := by
    intro mark fields hmark hsub hc
    rcases mem_markedFields hc with rfl | rfl | ⟨field, hfield, hmem⟩
    · exact hmark
    · rfl
    · simp [Semver.isTextChar, hv field (hsub hfield) c hmem]
  rw [toList_toString] at h
  simp only [List.mem_append, List.mem_cons] at h
  rcases h with h | rfl | h | rfl | h | h | h
  · exact hdigit _ h
  · rfl
  · exact hdigit _ h
  · rfl
  · exact hdigit _ h
  · exact hfields '-' v.pre rfl (List.subset_append_left _ _) h
  · exact hfields '+' v.build rfl (List.subset_append_right _ _) h

end DepSolver.Semver
