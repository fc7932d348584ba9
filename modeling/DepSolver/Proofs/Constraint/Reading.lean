import DepSolver.Proofs.Constraint.Written

/-!
Constraints that are read again. The text of a constraint that was read is one itself, with the same
intervals. It says nothing of prereleases, so that these are admitted afterwards if an end of an
interval is at one; and ranges without an end become the constraint that every version satisfies.
-/

namespace DepSolver

/-! ### Alternatives -/

namespace Text

/-- A text without blanks at its ends. -/
structure IsTight (l : List Char) : Prop where
  nonempty : l ≠ []
  head : ∀ c ∈ l.head?, isBlank c = false
  last : ∀ c ∈ l.getLast?, isBlank c = false

theorem IsTight.strip_append {l before after : List Char} (h : IsTight l)
    (hbefore : ∀ c ∈ before, isBlank c = true) (hafter : ∀ c ∈ after, isBlank c = true) :
    strip isBlank (before ++ (l ++ after)) = l := by
  have hhead : ∀ c ∈ (l ++ after).head?, isBlank c = false := by
    rw [List.head?_append_of_ne_nil _ h.nonempty]
    exact h.head
  have hlast : ∀ c ∈ l.reverse.head?, isBlank c = false := by
    rw [List.head?_reverse]
    exact h.last
  rw [strip, dropWhile_append_of_head hbefore hhead, dropEnd, List.reverse_append,
    dropWhile_append_of_head (by simpa using hafter) hlast, List.reverse_reverse]

theorem IsTight.strip_eq {l : List Char} (h : IsTight l) : strip isBlank l = l := by
  simpa using h.strip_append (List.forall_mem_nil _) (List.forall_mem_nil _)

theorem IsTight.append {a b : List Char} (ha : IsTight a) (hb : IsTight b) (sep : List Char) :
    IsTight (a ++ sep ++ b) where
  nonempty := by simp [ha.nonempty]
  head := by
    rw [List.append_assoc, List.head?_append_of_ne_nil _ ha.nonempty]
    exact ha.head
  last := by
    rw [List.getLast?_append_of_ne_nil _ hb.nonempty]
    exact hb.last

theorem isTight_intercalate {l : List (List Char)} (hne : l ≠ []) (h : ∀ t ∈ l, IsTight t)
    (sep : List Char) : IsTight (sep.intercalate l) := by
  induction l with
  | nil => exact absurd rfl hne
  | cons t l ih =>
      obtain ⟨ht, hl⟩ := List.forall_mem_cons.mp h
      cases l with
      | nil => rwa [List.intercalate_singleton]
      | cons t' l =>
          rw [List.intercalate_cons_cons]
          exact ht.append (ih (List.cons_ne_nil t' l) hl) sep

end Text

namespace Constraint

variable {a : List Char}

theorem alternatives_cons {c : Char} {rest piece : List Char} {pieces : List (List Char)}
    (hc : c ≠ '|') (h : alternatives rest = piece :: pieces) :
    alternatives (c :: rest) = (c :: piece) :: pieces := by
  rw [alternatives, h]
  rintro _ rfl
  exact absurd rfl hc

private theorem alternatives_of_notMem (ha : '|' ∉ a) : alternatives a = [a] := by
  induction a with
  | nil => rfl
  | cons c a ih =>
      rw [List.mem_cons, not_or] at ha
      exact alternatives_cons (Ne.symm ha.1) (ih ha.2)

private theorem alternatives_append (ha : '|' ∉ a) (rest : List Char) :
    alternatives (a ++ '|' :: '|' :: rest) = a :: alternatives rest := by
  induction a with
  | nil => rfl
  | cons c a ih =>
      rw [List.mem_cons, not_or] at ha
      exact alternatives_cons (Ne.symm ha.1) (ih ha.2)

private theorem map_strip_alternatives {l : List (List Char)} (hne : l ≠ [])
    (htight : ∀ t ∈ l, Text.IsTight t) (hbar : ∀ t ∈ l, '|' ∉ t) {before : List Char}
    (hbefore : ∀ c ∈ before, c = ' ') :
    (alternatives (before ++ [' ', '|', '|', ' '].intercalate l)).map (Text.strip Text.isBlank) =
      l := by
  have hblank : ∀ c ∈ before, Text.isBlank c = true := by
    intro c hc
    rw [hbefore c hc]
    rfl
  have hbarBefore : '|' ∉ before := fun hmem => absurd (hbefore '|' hmem) (by decide)
  induction l generalizing before with
  | nil => exact absurd rfl hne
  | cons t l ih =>
      obtain ⟨ht, htight⟩ := List.forall_mem_cons.mp htight
      obtain ⟨hbarT, hbar⟩ := List.forall_mem_cons.mp hbar
      cases l with
      | nil =>
          have hstrip := ht.strip_append hblank (List.forall_mem_nil _)
          rw [List.append_nil] at hstrip
          rw [List.intercalate_singleton, alternatives_of_notMem (by simp [hbarBefore, hbarT]),
            List.map_singleton, hstrip]
      | cons t' l =>
          have hjoin : before ++ [' ', '|', '|', ' '].intercalate (t :: t' :: l) =
              (before ++ (t ++ [' '])) ++ '|' :: '|' ::
                ([' '] ++ [' ', '|', '|', ' '].intercalate (t' :: l)) := by
            simp
          have hspace : ∀ c ∈ [' '], Text.isBlank c = true := List.forall_mem_singleton.mpr rfl
          rw [hjoin, alternatives_append (by simp [hbarBefore, hbarT]), List.map_cons,
            ht.strip_append hblank hspace,
            ih (List.cons_ne_nil t' l) htight hbar (by simp) hspace (by decide)]

/-! ### The texts of intervals -/

theorem singleEquals_append (ha : '=' ∉ a) (rest : List Char) :
    singleEquals (a ++ rest) = a ++ singleEquals rest := by
  induction a with
  | nil => rfl
  | cons c a ih =>
      rw [List.mem_cons, not_or] at ha
      rw [List.cons_append, singleEquals, ih ha.2, List.cons_append]
      rintro _ rfl
      exact absurd rfl ha.1

private theorem singleEquals_cons {c : Char} (hc : c ≠ '=') (rest : List Char) :
    singleEquals ('=' :: c :: rest) = '=' :: singleEquals (c :: rest) := by
  rw [singleEquals]
  rintro _ - heq
  exact hc (List.cons.inj heq).1

private theorem singleEquals_sign_append (relation : Semver.Relation) {c : Char} (hc : c ≠ '=')
    (rest : List Char) :
    singleEquals (relation.sign ++ c :: rest) = relation.sign ++ singleEquals (c :: rest) := by
  have hmark : ∀ mark ∈ ['>', '<', '~', '^'], ∀ rest,
      singleEquals (mark :: rest) = mark :: singleEquals rest := by
    intro mark hmark rest
    refine singleEquals_append (a := [mark]) ?_ rest
    rw [List.mem_singleton]
    rintro rfl
    simp at hmark
  cases relation with
  | wildcard => rfl
  | exact => exact singleEquals_cons hc rest
  | greaterEq =>
      exact (hmark '>' (by decide) _).trans (congrArg ('>' :: ·) (singleEquals_cons hc rest))
  | lessEq =>
      exact (hmark '<' (by decide) _).trans (congrArg ('<' :: ·) (singleEquals_cons hc rest))
  | greater | less | tilde | caret => exact hmark _ (by decide) _

end Constraint

namespace Semver

private theorem bounds_of_isAlphanum {c : Char} (h : c.isAlphanum = true) :
    48 ≤ c.toNat ∧ c.toNat ≤ 122 := by
  have hbounds : ∀ lo hi : UInt32, lo ≤ c.val → c.val ≤ hi → 48 ≤ lo.toNat → hi.toNat ≤ 122 →
      48 ≤ c.toNat ∧ c.toNat ≤ 122 := fun lo hi hlo hhi hleast hmost =>
    ⟨Nat.le_trans hleast hlo, Nat.le_trans hhi hmost⟩
  rcases Bool.or_eq_true_iff.mp h with hletter | hdigit
  · rcases Bool.or_eq_true_iff.mp hletter with hupper | hlower
    · obtain ⟨hlo, hhi⟩ := of_decide_eq_true hupper
      exact hbounds _ _ hlo hhi (by decide) (by decide)
    · obtain ⟨hlo, hhi⟩ := Bool.and_eq_true_iff.mp hlower
      exact hbounds _ _ (of_decide_eq_true hlo) (of_decide_eq_true hhi) (by decide) (by decide)
  · obtain ⟨hlo, hhi⟩ := Bool.and_eq_true_iff.mp hdigit
    exact hbounds _ _ (of_decide_eq_true hlo) (of_decide_eq_true hhi) (by decide) (by decide)

private theorem isBlank_eq_false_of_isTextChar {c : Char} (h : isTextChar c = true) :
    Text.isBlank c = false := by
  have hrange : 43 ≤ c.toNat ∧ c.toNat ≤ 122 := by
    simp only [isTextChar, isFieldChar, Bool.or_eq_true, decide_eq_true_eq] at h
    rcases h with ((h | rfl) | rfl) | rfl
    · exact (bounds_of_isAlphanum h).imp_left (Nat.le_trans (by decide))
    all_goals decide
  simp only [Text.isBlank, Bool.or_eq_false_iff, Bool.and_eq_false_iff, decide_eq_false_iff_not,
    beq_eq_false_iff_ne]
  omega

namespace Comparator

variable {k : Comparator} {l : List Comparator} {c : Char}

theorem IsWhole.isPlain_base (h : k.IsWhole) : k.base.IsPlain := by
  intro field hfield
  rw [base, List.append_nil] at hfield
  exact fun c hc => List.all_eq_true.mp (h.pre field hfield).1 c hc

theorem IsWhole.mem_text (h : k.IsWhole) (hc : c ∈ k.text) :
    c ∈ ['=', '>', '<', '~', '^'] ∨ isTextChar c = true := by
  rcases List.mem_append.mp hc with hsign | hversion
  · have hsub : k.relation.sign ⊆ ['=', '>', '<', '~', '^'] := by
      cases k.relation <;> decide
    exact .inl (hsub hsign)
  · exact .inr (h.isPlain_base.isTextChar hversion)

private theorem mem_textAll (hl : ∀ k ∈ l, k.IsWhole) (hc : c ∈ textAll l) :
    c ∈ ['=', '>', '<', '~', '^', ',', ' '] ∨ isTextChar c = true := by
  have hsub : ['=', '>', '<', '~', '^'] ⊆ ['=', '>', '<', '~', '^', ',', ' '] :=
    List.subset_append_left _ [',', ' ']
  induction l with
  | nil => cases hc
  | cons k l ih =>
      obtain ⟨hk, hl⟩ := List.forall_mem_cons.mp hl
      have hfirst : c ∈ k.text → c ∈ ['=', '>', '<', '~', '^', ',', ' '] ∨ isTextChar c = true :=
        fun hc => (hk.mem_text hc).imp_left fun h => hsub h
      cases l with
      | nil =>
          rw [textAll_singleton] at hc
          exact hfirst hc
      | cons k' l =>
          rw [textAll_cons_cons, List.mem_append, List.mem_cons, List.mem_cons] at hc
          rcases hc with hc | rfl | rfl | hc
          · exact hfirst hc
          · exact .inl (by decide)
          · exact .inl (by decide)
          · exact ih hl hc

theorem IsWhole.isTight_text (h : k.IsWhole) : Text.IsTight k.text := by
  obtain ⟨c, rest, htext, hc⟩ := h.exists_text_eq_cons
  obtain ⟨d, digits, hversion, -⟩ := exists_toList_toString_base_eq_cons (k := k)
  refine ⟨?_, ?_, fun c hc => ?_⟩
  · rw [htext]
    exact List.cons_ne_nil c rest
  · have hsign : ∀ c ∈ ['=', '>', '<', '~', '^'], Text.isBlank c = false := by
      simp only [List.forall_mem_cons]
      exact ⟨rfl, rfl, rfl, rfl, rfl, nofun⟩
    rw [htext]
    rintro _ ⟨⟩
    exact hsign c hc
  · rw [text, List.getLast?_append_of_ne_nil _ (by rw [hversion]; exact List.cons_ne_nil _ _)] at hc
    exact isBlank_eq_false_of_isTextChar (h.isPlain_base.isTextChar (List.mem_of_getLast? hc))

private theorem isTight_textAll (hl : ∀ k ∈ l, k.IsWhole) (hne : l ≠ []) : Text.IsTight
    (textAll l) :=
  Text.isTight_intercalate (mt List.map_eq_nil_iff.mp hne)
    (List.forall_mem_map.mpr fun k hk => (hl k hk).isTight_text) _

theorem IsWhole.singleEquals_text_append (h : k.IsWhole) (rest : List Char) :
    Constraint.singleEquals (k.text ++ rest) = k.text ++ Constraint.singleEquals rest := by
  have hversion : '=' ∉ (toString k.base).toList := h.isPlain_base.notMem_toString rfl
  have happend := Constraint.singleEquals_append hversion rest
  obtain ⟨c, l, hcons, hc⟩ := exists_toList_toString_base_eq_cons (k := k)
  rw [text, List.append_assoc, List.append_assoc, ← happend, hcons, List.cons_append]
  exact Constraint.singleEquals_sign_append k.relation (Requirement.ne_of_isDigit hc rfl) _

private theorem singleEquals_textAll (hl : ∀ k ∈ l, k.IsWhole) :
    Constraint.singleEquals (textAll l) = textAll l := by
  induction l with
  | nil => rfl
  | cons k l ih =>
      obtain ⟨hk, hl⟩ := List.forall_mem_cons.mp hl
      cases l with
      | nil =>
          have hsingle := hk.singleEquals_text_append []
          rwa [Constraint.singleEquals, List.append_nil, ← textAll_singleton] at hsingle
      | cons k' l =>
          have hcomma : Constraint.singleEquals ([',', ' '] ++ textAll (k' :: l)) =
              [',', ' '] ++ textAll (k' :: l) := by
            rw [Constraint.singleEquals_append (by decide), ih hl]
          rw [textAll_cons_cons, hk.singleEquals_text_append]
          exact congrArg (k.text ++ ·) hcomma

end Comparator

end Semver

/-! ### Constraints that are read again -/

namespace RangeSet

/-- The set as its text has it: prereleases are admitted if an end of an interval is at one. -/
def spelled (s : RangeSet) : RangeSet :=
  { s with prerelease := s.intervals.any (·.namesPrerelease) }

theorem toList_toString {s : RangeSet} (h : s.isEmpty = false) :
    (toString s).toList =
      [' ', '|', '|', ' '].intercalate (s.intervals.map fun i => (toString i).toList) := by
  have htext : toString s = " || ".intercalate (s.intervals.map toString) :=
    if_neg (by rw [h]; exact Bool.false_ne_true)
  rw [htext, String.toList_intercalate, List.map_map]
  rfl

theorem isEmpty_spelled {s : RangeSet} (h : s.isEmpty = false) : s.spelled.isEmpty = false := h

theorem spelled_eq_self_iff {s : RangeSet} :
    s.spelled = s ↔ s.prerelease = s.intervals.any (·.namesPrerelease) := by
  constructor
  · intro h
    exact (congrArg RangeSet.prerelease h).symm
  · intro h
    rw [spelled, ← h]

private theorem foldl_union_intervals (s : RangeSet) :
    (s.intervals.map ofInterval).foldl union .empty = s.spelled := by
  apply ext
  · intro c
    rw [covers_foldl_union, or_iff_right covers_empty]
    simp only [List.mem_map, exists_exists_and_eq_and, covers_ofInterval]
    rfl
  · have hempty : empty.prerelease = false := rfl
    rw [Bool.eq_iff_iff, prerelease_foldl_union, hempty, spelled, List.any_eq_true]
    simp only [List.mem_map, exists_exists_and_eq_and, Bool.false_eq_true, false_or]
    rfl

private theorem eq_full_of_mem {s : RangeSet} (h : ⟨.bottom, .top⟩ ∈ s.intervals) :
    s.intervals = [⟨.bottom, .top⟩] := by
  obtain ⟨before, after, hsplit⟩ := List.append_of_mem h
  have hapart := s.canonical.apart
  rw [hsplit, List.pairwise_append, List.pairwise_cons] at hapart
  obtain ⟨-, ⟨hafter, -⟩, hbefore⟩ := hapart
  have hnone : before = [] := List.eq_nil_iff_forall_not_mem.mpr fun i hi => by
    have hlt := hbefore i hi _ List.mem_cons_self
    cases hupper : i.upper <;> rw [hupper] at hlt <;> cases hlt
  have hnone' : after = [] := List.eq_nil_iff_forall_not_mem.mpr fun i hi => by
    have hlt := hafter i hi
    cases hlower : i.lower <;> rw [hlower] at hlt <;> cases hlt
  rw [hsplit, hnone, hnone', List.nil_append]

end RangeSet

namespace Constraint

variable {input : String} {c d : Constraint}

/-- The constraint as its text has it. -/
def spelled : Constraint → Constraint
  | admits (.ranges set h) r =>
      if set.intervals = [⟨.bottom, .top⟩] then admits .any r
      else admits (.ranges set.spelled (RangeSet.isEmpty_spelled h)) r
  | c => c

/-- The text of the constraint says all of it. -/
def IsSpelled : Constraint → Prop
  | admits (.ranges set _) _ =>
      set.intervals ≠ [⟨.bottom, .top⟩] ∧ set.prerelease = set.intervals.any (·.namesPrerelease)
  | _ => True

instance : (c : Constraint) → Decidable c.IsSpelled
  | admits (.ranges _ _) _ => inferInstanceAs (Decidable (_ ∧ _))
  | nothing | admits .any _ | admits (.branch _) _ | admits (.tag _) _ => .isTrue trivial

private theorem readAlternative_of_isWrittenAs {i : Interval} {l : List Semver.Comparator}
    (h : i.IsWrittenAs l) {text : List Char}
    (htext : Text.strip Text.isBlank text = (toString i).toList) :
    readAlternative text = .ok (.ofInterval i) := by
  have hlimit : l.length ≤ Semver.Requirement.maxComparators := h.length_le.trans (by decide)
  rw [readAlternative, htext, h.text, Semver.Comparator.singleEquals_textAll h.whole,
    Semver.Requirement.parseChars_textAll h.whole h.nonempty hlimit]
  exact congrArg Except.ok h.ranges

private theorem mapM_readAlternative {l : List Interval} (hl : ∀ i ∈ l, ∃ k, i.IsWrittenAs k)
    {texts : List (List Char)}
    (htexts : texts.map (Text.strip Text.isBlank) = l.map fun i => (toString i).toList) :
    texts.mapM readAlternative = .ok (l.map .ofInterval) := by
  induction l generalizing texts with
  | nil =>
      rw [List.map_eq_nil_iff.mp htexts]
      rfl
  | cons i l ih =>
      obtain ⟨⟨k, hk⟩, hl⟩ := List.forall_mem_cons.mp hl
      obtain ⟨text, rest, rfl, htext, hrest⟩ := List.map_eq_cons_iff.mp htexts
      rw [List.mapM_cons, readAlternative_of_isWrittenAs hk htext, ih hl hrest]
      rfl

private theorem parse_toString_ranges {set : RangeSet} (hset : set.IsNamed) (h :
    set.isEmpty = false)
    (hfull : set.intervals ≠ [⟨.bottom, .top⟩]) :
    parse (toString (admits (.ranges set h) none)) =
      .ok (admits (.ranges set.spelled (RangeSet.isEmpty_spelled h)) none) := by
  have hwritten : ∀ i ∈ set.intervals, ∃ l, i.IsWrittenAs l := fun i hi =>
    Interval.exists_isWrittenAs (hset i hi) (set.canonical.nonempty i hi) fun heq =>
      hfull (RangeSet.eq_full_of_mem (heq ▸ hi))
  let texts := set.intervals.map fun i => (toString i).toList
  have htexts : ∀ t ∈ texts, Text.IsTight t ∧ '|' ∉ t ∧ t ≠ ['*'] := by
    rw [List.forall_mem_map]
    intro i hi
    obtain ⟨l, hl⟩ := hwritten i hi
    obtain ⟨c, rest, hcons, hc⟩ := Semver.Comparator.exists_textAll_eq_cons hl.whole hl.nonempty
    rw [hl.text]
    refine ⟨Semver.Comparator.isTight_textAll hl.whole hl.nonempty, fun hbar => ?_, fun hstar => ?_⟩
    · exact absurd (Semver.Comparator.mem_textAll hl.whole hbar) (by decide)
    · obtain rfl : c = '*' := (List.cons.inj (hcons.symm.trans hstar)).1
      exact absurd hc (by decide)
  have hne : texts ≠ [] := mt List.map_eq_nil_iff.mp (RangeSet.intervals_ne_nil h)
  have htext : (toString (admits (.ranges set h) none)).toList =
      [' ', '|', '|', ' '].intercalate texts := RangeSet.toList_toString h
  have htight := Text.isTight_intercalate hne (fun t ht => (htexts t ht).1) [' ', '|', '|', ' ']
  have hpieces := map_strip_alternatives hne (fun t ht => (htexts t ht).1)
    (fun t ht => (htexts t ht).2.1) (List.forall_mem_nil _)
  rw [List.nil_append] at hpieces
  have hstar : [' ', '|', '|', ' '].intercalate texts ≠ ['*'] := by
    intro heq
    rw [heq] at hpieces
    exact (htexts ['*'] (hpieces ▸ List.mem_singleton_self _)).2.2 rfl
  have hranges : ofRanges set.spelled =
      admits (.ranges set.spelled (RangeSet.isEmpty_spelled h)) none := by
    rw [ofRanges, Selector.ofRanges?, dif_pos (RangeSet.isEmpty_spelled h)]
  simp only [parse, htext, htight.strip_eq, htight.nonempty, hstar, decide_false, Bool.or_false,
    Bool.false_eq_true, if_false, mapM_readAlternative hwritten hpieces,
    RangeSet.foldl_union_intervals, hranges]

theorem toString_of_full {set : RangeSet} (h : set.isEmpty = false)
    (hfull : set.intervals = [⟨.bottom, .top⟩]) :
    toString (admits (.ranges set h) none) = toString any := by
  apply String.toList_inj.mp
  refine (RangeSet.toList_toString h).trans ?_
  rw [hfull]
  rfl

theorem exists_ranges_of_parse (h : parse input = .ok c) (hc : c ≠ nothing) :
    c = any ∨ ∃ set hset, set.IsNamed ∧ c = admits (.ranges set hset) none := by
  rcases exists_isNamed_of_parse h with rfl | ⟨set, hset, rfl⟩
  · exact .inl rfl
  · by_cases hempty : set.isEmpty = false
    · refine .inr ⟨set, hempty, hset, ?_⟩
      rw [ofRanges, Selector.ofRanges?, dif_pos hempty]
    · refine absurd ?_ hc
      rw [ofRanges, Selector.ofRanges?, dif_neg hempty]

private theorem parse_toString_eq_spelled (h : parse input = .ok c) (hc : c ≠ nothing) :
    parse (toString c) = .ok c.spelled := by
  have hany : parse (toString any) = .ok any := by decide +kernel
  rcases exists_ranges_of_parse h hc with rfl | ⟨set, hempty, hset, rfl⟩
  · exact hany
  · by_cases hfull : set.intervals = [⟨.bottom, .top⟩]
    · rw [toString_of_full hempty hfull, hany, spelled, if_pos hfull]
      rfl
    · rw [parse_toString_ranges hset hempty hfull, spelled, if_neg hfull]

private theorem toString_spelled (h : parse input = .ok c) (hc : c ≠ nothing) :
    toString c.spelled = toString c := by
  rcases exists_ranges_of_parse h hc with rfl | ⟨set, hempty, -, rfl⟩
  · rfl
  · by_cases hfull : set.intervals = [⟨.bottom, .top⟩]
    · rw [toString_of_full hempty hfull, spelled, if_pos hfull]
      rfl
    · rw [spelled, if_neg hfull]
      rfl

private theorem spelled_ne_nothing (hc : c ≠ nothing) : c.spelled ≠ nothing := by
  cases c with
  | nothing => exact absurd rfl hc
  | admits selector r =>
      cases selector with
      | any | branch name | tag name => exact hc
      | ranges set h =>
          rw [spelled]
          split <;> simp

theorem spelled_eq_self_iff : c.spelled = c ↔ c.IsSpelled := by
  cases c with
  | nothing => exact iff_of_true rfl trivial
  | admits selector r =>
      cases selector with
      | any | branch name | tag name => exact iff_of_true rfl trivial
      | ranges set h =>
          rw [spelled, IsSpelled]
          split
          · rename_i hfull
            exact iff_of_false (by simp) fun hspelled => hspelled.1 hfull
          · rename_i hfull
            rw [and_iff_right hfull, admits.injEq, Selector.ranges.injEq, and_iff_left rfl,
              RangeSet.spelled_eq_self_iff]

/-- The text of a constraint that was read is read as what it says, which is the constraint itself
if it says all of it. Constraints that were read have one text if it says the same of them. -/
theorem parse_toString_of_parse (h : parse input = .ok c) (hc : c ≠ nothing) :
    parse (toString c) = .ok c.spelled ∧ (parse (toString c) = .ok c ↔ c.IsSpelled) ∧
      ∀ input' d, parse input' = .ok d → (toString c = toString d ↔ c.spelled = d.spelled) := by
  have hparse := parse_toString_eq_spelled h hc
  refine ⟨hparse, ?_, fun input' d hd => ?_⟩
  · rw [hparse, Except.ok.injEq, spelled_eq_self_iff]
  · by_cases hnothing : d = nothing
    · subst hnothing
      have hunread : ¬∃ e, parse (toString nothing) = .ok e :=
        mt exists_eq_ok_iff_isOk.mp (by decide +kernel)
      exact iff_of_false (fun heq => hunread ⟨_, heq ▸ hparse⟩) (spelled_ne_nothing hc)
    · have hparse' := parse_toString_eq_spelled hd hnothing
      constructor
      · intro heq
        rw [heq, hparse'] at hparse
        exact (Except.ok.inj hparse).symm
      · intro heq
        rw [← toString_spelled h hc, heq, toString_spelled hd hnothing]

/-- What `>=1.2.0-rc.1, <2 || >=3` stands for. -/
def candidateOrThird : Constraint :=
  ofRanges ((RangeSet.ofInterval ⟨.before ⟨1, 2, 0, ["rc", "1"], []⟩,
    .before (.release 2 0 0)⟩).union (.ofInterval ⟨.before (.release 3 0 0), .top⟩))

theorem parse_toString_candidateOrThird :
    parse ">=1.2.0-rc.1, <2 || >=3" = .ok candidateOrThird ∧ candidateOrThird ≠ nothing ∧
      candidateOrThird.IsSpelled ∧
      parse (toString candidateOrThird) = .ok candidateOrThird.spelled ∧
      (parse (toString candidateOrThird) = .ok candidateOrThird ↔ candidateOrThird.IsSpelled) ∧
      ∀ input' d, parse input' = .ok d →
        (toString candidateOrThird = toString d ↔ candidateOrThird.spelled = d.spelled) := by
  have hparse : parse ">=1.2.0-rc.1, <2 || >=3" = .ok candidateOrThird := by decide +kernel
  have hne : candidateOrThird ≠ nothing := by decide +kernel
  exact ⟨hparse, hne, by decide +kernel, parse_toString_of_parse hparse hne⟩

/-- What `>=1.0.0-alpha, >=1.0.0` stands for with prereleases, and `>=1.0.0` without. No end is left
at the prerelease that was named. -/
def fromFirst (prerelease : Bool) : Constraint :=
  ofRanges { RangeSet.ofInterval ⟨.before (.release 1 0 0), .top⟩ with prerelease }

theorem parse_toString_fromFirst_ne :
    parse ">=1.0.0-alpha, >=1.0.0" = .ok (fromFirst true) ∧ fromFirst true ≠ nothing ∧
      parse ">=1.0.0" = .ok (fromFirst false) ∧ fromFirst true ≠ fromFirst false ∧
      toString (fromFirst true) = toString (fromFirst false) ∧
      parse (toString (fromFirst true)) ≠ .ok (fromFirst true) := by
  decide +kernel

end Constraint

end DepSolver
