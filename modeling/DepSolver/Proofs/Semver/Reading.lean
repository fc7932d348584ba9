import DepSolver.Constraint.Parser
import DepSolver.Proofs.Semver.Parser
import DepSolver.Proofs.Semver.Text

/-!
Reading what was written. Numbers, fields and comparators of whole versions are read back from their
texts, whatever follows that cannot belong to them.
-/

namespace DepSolver

namespace Text

private theorem splitAt_eq_splitOn (sep : Char) (l : List Char) :
    splitAt sep l = List.splitOn sep l := by
  induction l with
  | nil => rfl
  | cons c rest ih =>
      rw [splitAt, List.splitOn_cons_eq_if_modifyHead, ih]
      cases hrest : List.splitOn sep rest with
      | nil => exact absurd hrest (List.splitOn_ne_nil _ _)
      | cons piece pieces => simp only [beq_iff_eq, List.modifyHead_cons]

end Text

namespace Semver

variable {part last : Part} {mark : Char} {rest : List Char} {fields : List String} {n : UInt64}

/-! ### Numbers -/

theorem exists_repr_eq_cons (n : Nat) : ∃ c l, n.repr.toList = c :: l ∧ c.isDigit = true := by
  cases hrepr : n.repr.toList with
  | nil => simp at hrepr
  | cons c l => exact ⟨c, l, rfl, isDigit_of_mem_repr (hrepr ▸ List.mem_cons_self)⟩

private theorem eq_zero_of_toDigits_eq_zero_cons {n : Nat} {l : List Char}
    (h : Nat.toDigits 10 n = '0' :: l) : n = 0 := by
  induction n using Nat.strongRecOn generalizing l with
  | ind n ih =>
      rw [Nat.toDigits_eq_if (by decide)] at h
      split at h
      · rename_i hlt
        interval_cases n <;> simp_all
      · rename_i hge
        obtain ⟨c, more, hrepr, -⟩ := exists_repr_eq_cons (n / 10)
        rw [Nat.toList_repr] at hrepr
        rw [hrepr] at h
        have hzero := ih (n / 10) (by omega) (hrepr.trans (by rw [(List.cons.inj h).1]))
        omega

theorem readNumber_repr (hrest : ∀ c ∈ rest.head?, c.isDigit = false) :
    readNumber part (n.toNat.repr.toList ++ rest) = .ok (n, rest) := by
  have hdigits : ∀ c ∈ n.toNat.repr.toList, c.isDigit = true := fun _ => isDigit_of_mem_repr
  have hvalue : digitsValue n.toNat.repr.toList = n.toNat := by
    change Nat.ofDigitChars 10 _ 0 = _
    rw [Nat.toList_repr, Nat.ofDigitChars_toDigits (by decide) (by decide)]
  rw [readNumber, Text.takeWhile_append_of_head hdigits hrest,
    Text.dropWhile_append_of_head hdigits hrest]
  dsimp only
  split
  · rename_i hnil
    simp at hnil
  · rename_i hnil
    simp at hnil
  · rename_i hzero
    have hn := eq_zero_of_toDigits_eq_zero_cons (Nat.toList_repr.symm.trans hzero)
    rw [hn] at hzero
    cases hzero
  · rw [hvalue, if_pos n.toNat_lt, UInt64.ofNat_toNat]

/-! ### Fields -/

private theorem readFields_intercalate (hne : fields ≠ []) (hfields :
    ∀ field ∈ fields, IsField part field)
    (hrest : ∀ c ∈ rest.head?, isFieldChar c = false ∧ c ≠ '.') :
    readFields part (['.'].intercalate (fields.map String.toList) ++ rest) =
      .ok (fields, rest) := by
  have hin : ∀ c ∈ ['.'].intercalate (fields.map String.toList),
      (isFieldChar c || c = '.') = true := by
    intro c hc
    rcases Text.mem_intercalate hc with rfl | ⟨piece, hpiece, hmem⟩
    · rfl
    · obtain ⟨field, hfield, rfl⟩ := List.mem_map.mp hpiece
      simp [List.all_eq_true.mp (hfields field hfield).1 c hmem]
  have hout : ∀ c ∈ rest.head?, (isFieldChar c || c = '.') = false := by
    intro c hc
    obtain ⟨hfield, hdot⟩ := hrest c hc
    simp [hfield, hdot]
  have hdot : ∀ piece ∈ fields.map String.toList, '.' ∉ piece := by
    intro piece hpiece hmem
    obtain ⟨field, hfield, rfl⟩ := List.mem_map.mp hpiece
    exact absurd (List.all_eq_true.mp (hfields field hfield).1 '.' hmem) (by decide)
  have hsplit : Text.splitAt '.' (['.'].intercalate (fields.map String.toList)) =
      fields.map String.toList := by
    rw [Text.splitAt_eq_splitOn, List.splitOn_intercalate _ hdot (by simpa using hne)]
  have hvalid : (fields.map String.toList).findSome? (fieldError? part) = none := by
    rw [List.findSome?_eq_none_iff, List.forall_mem_map]
    exact fun field hfield => (hfields field hfield).2
  simp only [readFields, Text.takeWhile_append_of_head hin hout,
    Text.dropWhile_append_of_head hin hout, hsplit, hvalid, List.map_map]
  simp

private theorem readFieldsAfter_markedFields (hfields : ∀ field ∈ fields, IsField part field)
    (hrest : ∀ c ∈ rest.head?, isFieldChar c = false ∧ c ≠ '.' ∧ c ≠ mark) :
    ∃ last', readFieldsAfter mark part last (markedFields mark fields ++ rest) =
      .ok ((fields, last'), rest) := by
  cases fields with
  | nil =>
      refine ⟨last, ?_⟩
      cases rest with
      | nil => rfl
      | cons c rest => exact if_neg (hrest c rfl).2.2
  | cons field more =>
      refine ⟨part, ?_⟩
      have hread := readFields_intercalate (List.cons_ne_nil field more) hfields fun c hc =>
        ⟨(hrest c hc).1, (hrest c hc).2.1⟩
      have hmarked : markedFields mark (field :: more) ++ rest =
          mark :: (['.'].intercalate ((field :: more).map String.toList) ++ rest) := rfl
      rw [hmarked, readFieldsAfter, if_pos rfl, hread]
      rfl

/-! ### Comparators -/

/-- The sign of a relation, as it is written before a version. -/
def Relation.sign : Relation → List Char
  | exact => ['=']
  | greater => ['>']
  | greaterEq => ['>', '=']
  | less => ['<']
  | lessEq => ['<', '=']
  | tilde => ['~']
  | caret => ['^']
  | wildcard => []

namespace Comparator

variable {k : Comparator} {l : List Comparator}

/-- A comparator with a sign and a whole version that can be written. -/
structure IsWhole (k : Comparator) : Prop where
  relation : k.relation ≠ .wildcard
  complete : k.isComplete = true
  pre : ∀ field ∈ k.pre, IsField .pre field

/-- The text of a comparator with a whole version. -/
def text (k : Comparator) : List Char := k.relation.sign ++ (toString k.base).toList

theorem IsWhole.exists_eq (h : k.IsWhole) :
    ∃ relation major minor patch pre, k = ⟨relation, major, some minor, some patch, pre⟩ := by
  obtain ⟨relation, major, minor, patch, pre⟩ := k
  obtain ⟨hminor, hpatch⟩ := Bool.and_eq_true_iff.mp h.complete
  obtain ⟨minor, rfl⟩ := Option.isSome_iff_exists.mp hminor
  obtain ⟨patch, rfl⟩ := Option.isSome_iff_exists.mp hpatch
  exact ⟨relation, major, minor, patch, pre, rfl⟩

theorem toList_toString_base : (toString k.base).toList =
    k.major.toNat.repr.toList ++ '.' :: ((k.minor.getD 0).toNat.repr.toList ++
      '.' :: ((k.patch.getD 0).toNat.repr.toList ++ markedFields '-' k.pre)) := by
  rw [toList_toString]
  change _ ++ '.' :: (_ ++ '.' :: (_ ++ (markedFields '-' k.pre ++ []))) = _
  rw [List.append_nil]
  rfl

theorem exists_toList_toString_base_eq_cons :
    ∃ c rest, (toString k.base).toList = c :: rest ∧ c.isDigit = true := by
  obtain ⟨c, l, hrepr, hc⟩ := exists_repr_eq_cons k.major.toNat
  rw [toList_toString_base, hrepr]
  exact ⟨c, _, List.cons_append, hc⟩

/-- The text of comparators, between commas. -/
def textAll (l : List Comparator) : List Char := [',', ' '].intercalate (l.map text)

theorem textAll_singleton (k : Comparator) : textAll [k] = k.text := by
  rw [textAll, List.map_singleton, List.intercalate_singleton]

theorem textAll_cons_cons (k k' : Comparator) (l : List Comparator) :
    textAll (k :: k' :: l) = k.text ++ ',' :: ' ' :: textAll (k' :: l) := by
  rw [textAll, List.map_cons, List.map_cons, List.intercalate_cons_cons, List.append_assoc]
  rfl

theorem IsWhole.exists_text_eq_cons (h : k.IsWhole) :
    ∃ c rest, k.text = c :: rest ∧ c ∈ ['=', '>', '<', '~', '^'] := by
  have hrelation := h.relation
  rw [text]
  cases hsign : k.relation <;> first | exact absurd hsign hrelation | exact ⟨_, _, rfl, by decide⟩

theorem exists_textAll_eq_cons (hl : ∀ k ∈ l, k.IsWhole) (hne : l ≠ []) :
    ∃ c rest, textAll l = c :: rest ∧ c ∈ ['=', '>', '<', '~', '^'] := by
  cases l with
  | nil => exact absurd rfl hne
  | cons k l =>
      obtain ⟨c, rest, htext, hc⟩ := (hl k List.mem_cons_self).exists_text_eq_cons
      cases l with
      | nil => exact ⟨c, rest, by rw [textAll_singleton, htext], hc⟩
      | cons k' l => exact ⟨c, _, by rw [textAll_cons_cons, htext, List.cons_append], hc⟩

end Comparator

namespace Requirement

open Comparator

variable {k : Comparator} {l : List Comparator} {limit : Nat}

theorem ne_of_isDigit {c d : Char} (hc : c.isDigit = true) (hd : d.isDigit = false) : c ≠ d := by
  rintro rfl
  rw [hc] at hd
  cases hd

private theorem readRelation?_sign {relation : Relation} (hrelation : relation ≠ .wildcard)
    (n : Nat) (rest : List Char) :
    readRelation? (relation.sign ++ (n.repr.toList ++ rest)) =
      some (relation, n.repr.toList ++ rest) := by
  obtain ⟨c, l, hrepr, hc⟩ := exists_repr_eq_cons n
  have hne := ne_of_isDigit (d := '=') hc rfl
  rw [hrepr]
  cases relation <;> simp_all [Relation.sign, readRelation?]

private theorem dropSpaces_repr (n : Nat) (rest : List Char) :
    dropSpaces (n.repr.toList ++ rest) = n.repr.toList ++ rest := by
  obtain ⟨c, l, hrepr, hc⟩ := exists_repr_eq_cons n
  rw [hrepr]
  exact List.dropWhile_cons_of_neg (by simpa using ne_of_isDigit hc rfl)

private theorem readField_repr {before : Field} (hbefore : before ≠ .wildcard)
    (hrest : ∀ c ∈ rest.head?, c.isDigit = false) :
    readField part before ('.' :: (n.toNat.repr.toList ++ rest)) = .ok (.number n, rest) := by
  obtain ⟨c, l, hrepr, hc⟩ := exists_repr_eq_cons n.toNat
  have hnone : readWildcard? (n.toNat.repr.toList ++ rest) = none := by
    have hstar := ne_of_isDigit (d := '*') hc rfl
    have hx := ne_of_isDigit (d := 'x') hc rfl
    have hX := ne_of_isDigit (d := 'X') hc rfl
    rw [hrepr]
    simp_all [readWildcard?]
  rw [readField, hnone]
  dsimp only
  rw [if_neg hbefore, readNumber_repr hrest]
  rfl

theorem readComparator_text (h : k.IsWhole) (rest : List Char)
    (hrest : ∀ c ∈ rest.head?, c = ',') :
    ∃ last, readComparator (k.text ++ rest) = .ok ((k, last), rest) := by
  obtain ⟨relation, major, minor, patch, pre, rfl⟩ := h.exists_eq
  have htext : text ⟨relation, major, some minor, some patch, pre⟩ ++ rest = relation.sign ++
      (major.toNat.repr.toList ++ '.' :: (minor.toNat.repr.toList ++
        '.' :: (patch.toNat.repr.toList ++ (markedFields '-' pre ++ rest)))) := by
    rw [text, toList_toString_base]
    simp only [List.append_assoc, List.cons_append]
    rfl
  have hafter : ∀ c ∈ (markedFields '-' pre ++ rest).head?, c.isDigit = false := by
    intro c hc
    rw [List.head?_append, Option.mem_def, Option.or_eq_some_iff] at hc
    rcases hc with hmark | ⟨-, hcomma⟩
    · rw [head?_markedFields hmark]
      rfl
    · rw [hrest c hcomma]
      rfl
  have hpre : ∃ last, readFieldsAfter '-' .pre .patch (markedFields '-' pre ++ rest) =
      .ok ((pre, last), rest) :=
    readFieldsAfter_markedFields h.pre fun c hc => by
      rw [hrest c hc]
      decide
  obtain ⟨last, hpre⟩ := hpre
  have hbuild : readFieldsAfter '+' .build last rest = .ok (([], last), rest) := by
    cases rest with
    | nil => rfl
    | cons c rest =>
        rw [hrest c rfl]
        rfl
  have hspaces : dropSpaces rest = rest := by
    cases rest with
    | nil => rfl
    | cons c rest =>
        rw [hrest c rfl]
        rfl
  have hlast : (if Field.number patch ≠ .absent then Part.patch
      else if Field.number minor ≠ .absent then .minor else .major) = .patch :=
    if_pos (by simp)
  refine ⟨last, ?_⟩
  rw [htext, readComparator, readRelation?_sign h.relation]
  dsimp only
  rw [dropSpaces_repr, readNumber_repr (by simp)]
  dsimp only [bind, Except.bind]
  rw [readField_repr (by decide) (by simp)]
  dsimp only
  rw [readField_repr (by simp) hafter]
  simp only [Field.toOption, Option.isSome_some, if_true, hlast, hpre, hbuild, hspaces]
  rfl

theorem dropSpaces_textAll (hl : ∀ k ∈ l, k.IsWhole) (hne : l ≠ []) :
    dropSpaces (textAll l) = textAll l := by
  obtain ⟨c, rest, htext, hc⟩ := exists_textAll_eq_cons hl hne
  rw [htext]
  refine List.dropWhile_cons_of_neg ?_
  rw [decide_eq_true_eq]
  rintro rfl
  simp at hc

private theorem readComparators_textAll (hl : ∀ k ∈ l, k.IsWhole) (hne : l ≠ [])
    (hlimit : l.length ≤ limit) : readComparators limit (textAll l) = .ok l := by
  induction l generalizing limit with
  | nil => exact absurd rfl hne
  | cons k l ih =>
      obtain ⟨hk, hl⟩ := List.forall_mem_cons.mp hl
      obtain ⟨limit, rfl⟩ : ∃ n, limit = n + 1 :=
        ⟨limit - 1, by rw [List.length_cons] at hlimit; omega⟩
      cases l with
      | nil =>
          obtain ⟨last, hread⟩ := readComparator_text hk [] (by simp)
          rw [List.append_nil] at hread
          rw [textAll_singleton, readComparators, hread]
      | cons k' l =>
          obtain ⟨last, hread⟩ :=
            readComparator_text hk (',' :: ' ' :: textAll (k' :: l)) (by simp)
          have hmore := ih hl (List.cons_ne_nil k' l) (Nat.le_of_succ_le_succ hlimit)
          have hspaces : dropSpaces (' ' :: textAll (k' :: l)) = textAll (k' :: l) :=
            dropSpaces_textAll hl (List.cons_ne_nil k' l)
          rw [textAll_cons_cons, readComparators, hread]
          change (readComparators limit (dropSpaces (' ' :: _))).map (k :: ·) = _
          rw [hspaces, hmore]
          rfl

theorem parseChars_textAll (hl : ∀ k ∈ l, k.IsWhole) (hne : l ≠ [])
    (hlimit : l.length ≤ maxComparators) : parseChars (textAll l) = .ok ⟨l⟩ := by
  have hread := readComparators_textAll hl hne hlimit
  obtain ⟨c, rest, htext, hc⟩ := exists_textAll_eq_cons hl hne
  have hwildcard : readWildcard? (textAll l) = none := by
    rw [htext, readWildcard?.eq_def]
    split <;> simp_all
  rw [parseChars, dropSpaces_textAll hl hne, hwildcard]
  dsimp only
  rw [hread]
  rfl

end Requirement

end Semver

end DepSolver
