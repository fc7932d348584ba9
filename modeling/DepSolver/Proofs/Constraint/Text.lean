import DepSolver.Constraint
import DepSolver.Proofs.Semver.Text

/-!
The texts of constraints. Plain constraints with the same text are the same, but for what no text
says: whether ranges admit prereleases, and whether the constraint has ranges at all where it
admits every release.
-/

namespace DepSolver

namespace Text

/-- The words of a text, between single spaces. -/
def spaced (s : String) : List (List Char) := List.splitOn ' ' s.toList

theorem spaced_of_notMem {s : String} (h : ' ' ∉ s.toList) : spaced s = [s.toList] :=
  List.splitOn_eq_singleton h

theorem spaced_append_space (s t : String) : spaced (s ++ " " ++ t) = spaced s ++ spaced t := by
  rw [spaced, String.toList_append, String.toList_append, List.append_assoc]
  exact List.splitOn_append_cons_self _ _

private theorem spaced_ne_nil (s : String) : spaced s ≠ [] := List.splitOn_ne_nil _ _

/-- The first word that begins with a mark, without commas. -/
def wordAt? (mark : Char) (words : List (List Char)) : Option (List Char) :=
  (words.map (·.filter (· ≠ ','))).find? (·.head? = some mark)

@[simp] theorem wordAt?_nil (mark : Char) : wordAt? mark [] = none := rfl

end Text

theorem Semver.IsPlain.notMem_toString {v : Semver} (h : v.IsPlain) {c : Char}
    (hc : Semver.isTextChar c = false) : c ∉ (toString v).toList := by
  intro hmem
  rw [h.isTextChar hmem] at hc
  cases hc

/-! ### Ends of intervals -/

namespace Cut

def IsPlain (cut : Cut) : Prop := ∀ v ∈ cut.version?, v.IsPlain

instance (cut : Cut) : Decidable cut.IsPlain :=
  inferInstanceAs (Decidable (∀ v ∈ cut.version?, v.IsPlain))

end Cut

namespace Interval

/-- A word that begins like those of intervals. -/
def IsMarked (word : List Char) : Prop :=
  word.head? ∈ [some '*', some '=', some '>', some '<'] ∧ '>' ∉ word.tail

instance (word : List Char) : Decidable (IsMarked word) :=
  inferInstanceAs (Decidable (_ ∧ _))

/-- A text that stands for an end of an interval: a mark, and then no space, comma or other mark. -/
def IsEndText (mark : Char) (s : String) : Prop :=
  mark ∈ ['=', '>', '<'] ∧ ∃ rest, s.toList = mark :: rest ∧ ∀ c ∈ [' ', ',', '>'], c ∉ rest

theorem IsEndText.head {mark : Char} {s : String} (h : IsEndText mark s) :
    s.toList.head? = some mark := by
  obtain ⟨-, rest, hs, -⟩ := h
  rw [hs]
  rfl

theorem IsEndText.notMem {mark : Char} {s : String} (h : IsEndText mark s) (c : Char)
    (hc : c ∈ [' ', ',']) : c ∉ s.toList := by
  obtain ⟨hmark, rest, hs, hrest⟩ := h
  have hne : ∀ c ∈ [' ', ','], c ∉ ['=', '>', '<'] := by simp
  rw [hs, List.mem_cons, not_or]
  refine ⟨?_, hrest c (List.mem_append_left ['>'] hc)⟩
  rintro rfl
  exact hne c hc hmark

theorem isEndText_append {mark : Char} {start : String} {v : Semver} (hv : v.IsPlain)
    (hmark : mark ∈ ['=', '>', '<']) (hstart : start.toList = [mark, '='] ∨ start.toList = [mark]) :
    IsEndText mark (start ++ toString v) := by
  have hrest : ∀ c ∈ [' ', ',', '>'], c ∉ (toString v).toList := by
    intro c hc
    apply hv.notMem_toString
    simp only [List.mem_cons, List.not_mem_nil, or_false] at hc
    rcases hc with rfl | rfl | rfl <;> decide
  refine ⟨hmark, ?_⟩
  rw [String.toList_append]
  rcases hstart with hs | hs
  · refine ⟨'=' :: (toString v).toList, by rw [hs]; rfl, fun c hc => ?_⟩
    rw [List.mem_cons, not_or]
    refine ⟨?_, hrest c hc⟩
    rintro rfl
    revert hc
    decide
  · exact ⟨(toString v).toList, by rw [hs]; rfl, hrest⟩

private theorem isEndText_of_lowerText? {cut : Cut} {s : String} (hcut : cut.IsPlain)
    (h : lowerText? cut = some s) : IsEndText '>' s := by
  cases cut with
  | bottom => cases h
  | top => cases h
  | before v =>
      cases h
      exact isEndText_append (hcut v rfl) (by decide) (.inl rfl)
  | after v =>
      cases h
      exact isEndText_append (hcut v rfl) (by decide) (.inr rfl)

private theorem isEndText_of_upperText? {cut : Cut} {s : String} (hcut : cut.IsPlain)
    (h : upperText? cut = some s) : IsEndText '<' s := by
  cases cut with
  | bottom => cases h
  | top => cases h
  | before v =>
      cases h
      exact isEndText_append (hcut v rfl) (by decide) (.inr rfl)
  | after v =>
      cases h
      exact isEndText_append (hcut v rfl) (by decide) (.inl rfl)

private theorem eq_of_append_toString_eq {v w : Semver} (hv : v.IsPlain) (hw : w.IsPlain) {mark :
    Char}
    {start start' : String} (hstart : start.toList = [mark, '='] ∨ start.toList = [mark])
    (hstart' : start'.toList = [mark, '='] ∨ start'.toList = [mark])
    (h : start ++ toString v = start' ++ toString w) : start.toList = start'.toList ∧ v = w := by
  have hsign : ∀ {u : Semver} {l : List Char}, u.IsPlain → '=' :: l ≠ (toString u).toList := by
    intro u l hu heq
    exact hu.notMem_toString rfl (heq ▸ List.mem_cons_self)
  have hchars := congrArg String.toList h
  rw [String.toList_append, String.toList_append] at hchars
  rcases hstart with hs | hs <;> rcases hstart' with hs' | hs' <;> rw [hs, hs'] at hchars ⊢ <;>
    simp only [List.cons_append, List.nil_append, List.cons.injEq, true_and] at hchars
  · exact ⟨rfl, hv.eq_of_toString_eq hw (String.toList_inj.mp hchars)⟩
  · exact absurd hchars (hsign hw)
  · exact absurd hchars.symm (hsign hv)
  · exact ⟨rfl, hv.eq_of_toString_eq hw (String.toList_inj.mp hchars)⟩

theorem eq_of_cutText_eq {text? : Cut → Option String} {mark : Char} {before after : String}
    (hnone : ∀ cut, cut.version? = none → text? cut = none)
    (hbefore : ∀ v, text? (.before v) = some (before ++ toString v))
    (hafter : ∀ v, text? (.after v) = some (after ++ toString v))
    (hsign : before.toList = [mark, '='] ∨ before.toList = [mark])
    (hsign' : after.toList = [mark, '='] ∨ after.toList = [mark])
    (hne : before.toList ≠ after.toList) {a b : Cut} (ha : a.IsPlain) (hb : b.IsPlain)
    (hab : a.version? = none → b.version? = none → a = b) (h : text? a = text? b) : a = b := by
  have hside : ∀ cut : Cut, (cut.version? = none ∧ text? cut = none) ∨
      ∃ v, cut.version? = some v ∧ (cut = .before v ∨ cut = .after v) := by
    intro cut
    cases cut with
    | bottom => exact .inl ⟨rfl, hnone _ rfl⟩
    | top => exact .inl ⟨rfl, hnone _ rfl⟩
    | before v => exact .inr ⟨v, rfl, .inl rfl⟩
    | after v => exact .inr ⟨v, rfl, .inr rfl⟩
  rcases hside a with ⟨hav, hatext⟩ | ⟨v, hv, rfl | rfl⟩ <;>
    rcases hside b with ⟨hbv, hbtext⟩ | ⟨w, hw, rfl | rfl⟩ <;>
    simp only [*, Option.some.injEq, reduceCtorEq] at h
  · exact hab hav hbv
  · rw [(eq_of_append_toString_eq (ha v hv) (hb w hw) hsign hsign h).2]
  · exact absurd (eq_of_append_toString_eq (ha v hv) (hb w hw) hsign hsign' h).1 hne
  · exact absurd (eq_of_append_toString_eq (ha v hv) (hb w hw) hsign' hsign h).1.symm hne
  · rw [(eq_of_append_toString_eq (ha v hv) (hb w hw) hsign' hsign' h).2]

private theorem eq_of_lowerText?_eq {a b : Cut} (ha : a.IsPlain) (hb : b.IsPlain) (hatop : a ≠ .top)
    (hbtop : b ≠ .top) (h : lowerText? a = lowerText? b) : a = b := by
  refine eq_of_cutText_eq ?_ (fun _ => rfl) (fun _ => rfl) (.inl rfl) (.inr rfl) (by decide) ha hb
    ?_ h
  · rintro (_ | _ | _ | _) hcut <;> first | rfl | cases hcut
  · cases a <;> cases b <;> simp_all [Cut.version?]

private theorem eq_of_upperText?_eq {a b : Cut} (ha : a.IsPlain) (hb : b.IsPlain) (habottom :
    a ≠ .bottom)
    (hbbottom : b ≠ .bottom) (h : upperText? a = upperText? b) : a = b := by
  refine eq_of_cutText_eq ?_ (fun _ => rfl) (fun _ => rfl) (.inr rfl) (.inl rfl) (by decide) ha hb
    ?_ h
  · rintro (_ | _ | _ | _) hcut <;> first | rfl | cases hcut
  · cases a <;> cases b <;> simp_all [Cut.version?]

/-! ### Intervals -/

structure IsPlain (i : Interval) : Prop where
  lower : i.lower.IsPlain
  upper : i.upper.IsPlain

/-- The version that the interval has, if its text shows it to have one alone. -/
def point? (i : Interval) : Option Semver :=
  match i.lower, i.upper with
  | .before lo, .after hi => if lo = hi then some lo else none
  | _, _ => none

/-- What the words of an interval show. -/
structure Shows (words : List (List Char)) (i : Interval) : Prop where
  exact : Text.wordAt? '=' words = i.point?.map fun v => '=' :: (toString v).toList
  lower : i.point? = none → Text.wordAt? '>' words = (lowerText? i.lower).map String.toList
  upper : i.point? = none → Text.wordAt? '<' words = (upperText? i.upper).map String.toList
  marked : ∀ word ∈ words, IsMarked word

theorem toString_eq_of_point? {i : Interval} {v : Semver} (h : i.point? = some v) :
    i = ⟨.before v, .after v⟩ ∧ toString i = "=" ++ toString v := by
  obtain ⟨lower, upper⟩ := i
  cases lower <;> cases upper <;> simp only [point?, reduceCtorEq, Option.ite_none_right_eq_some,
    Option.some.injEq] at h
  obtain ⟨rfl, rfl⟩ := h
  exact ⟨rfl, if_pos rfl⟩

theorem toString_eq_of_point?_eq_none {i : Interval} (h : i.point? = none)
    (hfull : i ≠ ⟨.bottom, .top⟩) :
    toString i = ", ".intercalate ((lowerText? i.lower).toList ++ (upperText? i.upper).toList) := by
  obtain ⟨lower, upper⟩ := i
  cases lower <;> cases upper <;> first | rfl | exact absurd rfl hfull | skip
  rename_i v w
  rw [point?] at h
  exact if_neg fun heq => by simp [heq] at h

theorem IsEndText.spaced_eq {mark : Char} {s : String} (h : IsEndText mark s) :
    Text.spaced s = [s.toList] :=
  Text.spaced_of_notMem (h.notMem ' ' (by decide))

theorem IsEndText.filter_eq {mark : Char} {s : String} (h : IsEndText mark s) {word : List Char}
    (hword : word = s.toList ∨ word = s.toList ++ [',']) : word.filter (· ≠ ',') = s.toList := by
  have hself : s.toList.filter (· ≠ ',') = s.toList := by
    rw [List.filter_eq_self]
    intro c hc
    rw [decide_eq_true_eq]
    rintro rfl
    exact h.notMem ',' (by decide) hc
  rcases hword with rfl | rfl
  · exact hself
  · rw [List.filter_append, hself]
    exact List.append_nil _

theorem IsEndText.wordAt?_cons {mark : Char} {s : String} (h : IsEndText mark s) {word : List Char}
    (hword : word = s.toList ∨ word = s.toList ++ [',']) (m : Char) (rest : List (List Char)) :
    Text.wordAt? m (word :: rest) = if mark = m then some s.toList else Text.wordAt? m rest := by
  rw [Text.wordAt?, List.map_cons, h.filter_eq hword, List.find?_cons, h.head]
  by_cases hm : mark = m
  · simp [hm]
  · simp [hm, Text.wordAt?]

theorem IsEndText.isMarked {mark : Char} {s : String} (h : IsEndText mark s) {word : List Char}
    (hword : word = s.toList ∨ word = s.toList ++ [',']) : IsMarked word := by
  obtain ⟨hmark, rest, hs, hrest⟩ := h
  have hnone := hrest '>' (by decide)
  have hhead : some mark ∈ [some '*', some '=', some '>', some '<'] :=
    List.mem_cons_of_mem _ (List.mem_map_of_mem hmark)
  rcases hword with rfl | rfl
  · rw [hs]
    exact ⟨hhead, hnone⟩
  · rw [hs]
    exact ⟨hhead, by simpa using hnone⟩

theorem IsEndText.spaced_intercalate {a b : String} (ha : IsEndText '>' a) (hb : IsEndText '<' b) :
    Text.spaced (", ".intercalate [a, b]) = [a.toList ++ [','], b.toList] := by
  have hcomma : ' ' ∉ (a ++ ",").toList := by
    rw [String.toList_append, List.mem_append]
    exact fun hmem => hmem.elim (ha.notMem ' ' (by decide)) (by decide)
  have hjoin : ", ".intercalate [a, b] = (a ++ ",") ++ " " ++ b := by
    rw [String.intercalate_cons_cons, String.intercalate_singleton]
    simp only [String.append_assoc]
    rfl
  rw [hjoin, Text.spaced_append_space, Text.spaced_of_notMem hcomma, hb.spaced_eq,
    String.toList_append]
  rfl

theorem ne_top_and_ne_bottom {i : Interval} (h : compare i.lower i.upper = .lt) :
    i.lower ≠ .top ∧ i.upper ≠ .bottom := by
  obtain ⟨lower, upper⟩ := i
  constructor <;> rintro rfl
  · cases upper <;> cases h
  · cases lower <;> cases h

theorem eq_full_of_no_text {i : Interval} (h : compare i.lower i.upper = .lt)
    (hlower : lowerText? i.lower = none) (hupper : upperText? i.upper = none) :
    i = ⟨.bottom, .top⟩ := by
  obtain ⟨htop, hbottom⟩ := ne_top_and_ne_bottom h
  obtain ⟨lower, upper⟩ := i
  cases lower <;> cases upper <;> first | rfl | contradiction

theorem IsPlain.shows_spaced {i : Interval} (h : i.IsPlain)
    (hcompare : compare i.lower i.upper = .lt) : Shows (Text.spaced (toString i)) i := by
  by_cases hfull : i = ⟨.bottom, .top⟩
  · subst hfull
    refine ⟨rfl, fun _ => rfl, fun _ => rfl, fun word hword => ?_⟩
    rw [List.mem_singleton.mp hword]
    decide
  cases hexact : i.point? with
  | some v =>
      obtain ⟨rfl, htext⟩ := toString_eq_of_point? hexact
      have hend : IsEndText '=' ("=" ++ toString v) :=
        isEndText_append (h.lower v rfl) (by decide) (.inr rfl)
      rw [htext, hend.spaced_eq]
      refine ⟨?_, ?_, ?_, ?_⟩
      · rw [hend.wordAt?_cons (.inl rfl), if_pos rfl, hexact]
        exact congrArg some String.toList_append
      · simp [hexact]
      · simp [hexact]
      · simpa using hend.isMarked (.inl rfl)
  | none =>
      rw [toString_eq_of_point?_eq_none hexact hfull]
      cases hlower : lowerText? i.lower with
      | none =>
          cases hupper : upperText? i.upper with
          | none => exact absurd (eq_full_of_no_text hcompare hlower hupper) hfull
          | some b =>
              have hb := isEndText_of_upperText? h.upper hupper
              change Shows (Text.spaced (", ".intercalate [b])) i
              rw [String.intercalate_singleton, hb.spaced_eq]
              refine ⟨?_, fun _ => ?_, fun _ => ?_, ?_⟩
              · simp [hb.wordAt?_cons (.inl rfl), hexact]
              · simp [hb.wordAt?_cons (.inl rfl), hlower]
              · simp [hb.wordAt?_cons (.inl rfl), hupper]
              · simpa using hb.isMarked (.inl rfl)
      | some a =>
          have ha := isEndText_of_lowerText? h.lower hlower
          cases hupper : upperText? i.upper with
          | none =>
              change Shows (Text.spaced (", ".intercalate [a])) i
              rw [String.intercalate_singleton, ha.spaced_eq]
              refine ⟨?_, fun _ => ?_, fun _ => ?_, ?_⟩
              · simp [ha.wordAt?_cons (.inl rfl), hexact]
              · simp [ha.wordAt?_cons (.inl rfl), hlower]
              · simp [ha.wordAt?_cons (.inl rfl), hupper]
              · simpa using ha.isMarked (.inl rfl)
          | some b =>
              have hb := isEndText_of_upperText? h.upper hupper
              change Shows (Text.spaced (", ".intercalate [a, b])) i
              rw [ha.spaced_intercalate hb]
              refine ⟨?_, fun _ => ?_, fun _ => ?_, ?_⟩
              · simp [ha.wordAt?_cons (.inr rfl), hb.wordAt?_cons (.inl rfl), hexact]
              · simp [ha.wordAt?_cons (.inr rfl), hlower]
              · simp [ha.wordAt?_cons (.inr rfl), hb.wordAt?_cons (.inl rfl), hupper]
              · rw [List.forall_mem_cons, List.forall_mem_singleton]
                exact ⟨ha.isMarked (.inr rfl), hb.isMarked (.inl rfl)⟩

theorem IsPlain.eq_of_spaced_eq {i j : Interval} (hi : i.IsPlain) (hj : j.IsPlain)
    (hi' : compare i.lower i.upper = .lt) (hj' : compare j.lower j.upper = .lt)
    (h : Text.spaced (toString i) = Text.spaced (toString j)) : i = j := by
  have hshows := hi.shows_spaced hi'
  have hshows' := hj.shows_spaced hj'
  rw [h] at hshows
  have hexact := hshows.exact.symm.trans hshows'.exact
  cases hv : i.point? with
  | some v =>
      rw [hv, Option.map_some, eq_comm, Option.map_eq_some_iff] at hexact
      obtain ⟨w, hw, htext⟩ := hexact
      obtain ⟨rfl, -⟩ := toString_eq_of_point? hv
      obtain ⟨rfl, -⟩ := toString_eq_of_point? hw
      have hwv : toString w = toString v := String.toList_inj.mp (List.cons.inj htext).2
      rw [(hj.lower w rfl).eq_of_toString_eq (hi.lower v rfl) hwv]
  | none =>
      rw [hv, Option.map_none, eq_comm, Option.map_eq_none_iff] at hexact
      have hinj := Option.map_injective fun _ _ => @String.toList_injective _ _
      have hlower := hinj ((hshows.lower hv).symm.trans (hshows'.lower hexact))
      have hupper := hinj ((hshows.upper hv).symm.trans (hshows'.upper hexact))
      obtain ⟨hitop, hibottom⟩ := ne_top_and_ne_bottom hi'
      obtain ⟨hjtop, hjbottom⟩ := ne_top_and_ne_bottom hj'
      have hends := And.intro (eq_of_lowerText?_eq hi.lower hj.lower hitop hjtop hlower)
        (eq_of_upperText?_eq hi.upper hj.upper hibottom hjbottom hupper)
      cases i
      cases j
      exact congrArg₂ Interval.mk hends.1 hends.2

end Interval

/-! ### Sets -/

namespace RangeSet

/-- The intervals of the set end at plain versions. -/
def IsPlain (s : RangeSet) : Prop := ∀ i ∈ s.intervals, i.IsPlain

private theorem spaced_intercalate (l : List String) (hl : l ≠ []) :
    Text.spaced (" || ".intercalate l) = [['|', '|']].intercalate (l.map Text.spaced) := by
  induction l with
  | nil => exact absurd rfl hl
  | cons first rest ih =>
      cases rest with
      | nil => rw [String.intercalate_singleton]; simp
      | cons next rest =>
          have hjoin : " || ".intercalate (first :: next :: rest) =
              first ++ " " ++ ("||" ++ " " ++ " || ".intercalate (next :: rest)) := by
            rw [String.intercalate_cons_cons]
            simp only [String.append_assoc]
            rfl
          rw [List.map_cons, List.intercalate_cons_of_ne_nil (by simp), hjoin,
            Text.spaced_append_space, Text.spaced_append_space, ih (by simp), List.append_assoc]
          rfl

theorem intervals_ne_nil {s : RangeSet} (h : s.isEmpty = false) : s.intervals ≠ [] := by
  intro heq
  rw [isEmpty, heq] at h
  cases h

private theorem spaced_toString {s : RangeSet} (h : s.isEmpty = false) :
    Text.spaced (toString s) =
      [['|', '|']].intercalate (s.intervals.map fun i => Text.spaced (toString i)) := by
  have htext : toString s = " || ".intercalate (s.intervals.map toString) :=
    if_neg (by rw [h]; exact Bool.false_ne_true)
  rw [htext, spaced_intercalate _ (mt List.map_eq_nil_iff.mp (intervals_ne_nil h)), List.map_map]
  rfl

theorem IsPlain.isMarked {s : RangeSet} (hs : s.IsPlain) {i : Interval} (hi : i ∈ s.intervals)
    {word : List Char} (hword : word ∈ Text.spaced (toString i)) : Interval.IsMarked word :=
  ((hs i hi).shows_spaced (s.canonical.nonempty i hi)).marked word hword

theorem IsPlain.eq_or_isMarked {s : RangeSet} (hs : s.IsPlain) (h : s.isEmpty = false)
    {word : List Char} (hword : word ∈ Text.spaced (toString s)) :
    word = ['|', '|'] ∨ Interval.IsMarked word := by
  rw [spaced_toString h] at hword
  rcases Text.mem_intercalate hword with heq | ⟨words, hwords, hmem⟩
  · exact .inl heq
  · obtain ⟨i, hi, rfl⟩ := List.mem_map.mp hwords
    exact .inr (hs.isMarked hi hmem)

theorem IsPlain.splitOn_spaced {s : RangeSet} (hs : s.IsPlain) (h : s.isEmpty = false) :
    List.splitOn ['|', '|'] (Text.spaced (toString s)) =
      s.intervals.map fun i => Text.spaced (toString i) := by
  rw [spaced_toString h]
  apply List.splitOn_intercalate
  · intro words hwords hmem
    obtain ⟨i, hi, rfl⟩ := List.mem_map.mp hwords
    exact absurd (hs.isMarked hi hmem) (by decide)
  · exact mt List.map_eq_nil_iff.mp (intervals_ne_nil h)

theorem IsPlain.intervals_eq_of_spaced_eq {s t : RangeSet} (hs : s.IsPlain) (ht : t.IsPlain)
    (hs' : s.isEmpty = false) (ht' : t.isEmpty = false)
    (h : Text.spaced (toString s) = Text.spaced (toString t)) : s.intervals = t.intervals := by
  have hmap := congrArg (List.splitOn ['|', '|']) h
  rw [hs.splitOn_spaced hs', ht.splitOn_spaced ht'] at hmap
  simpa using Text.map_eq_map_of_forall (g := id) (fun i hi j hj =>
    (hs i hi).eq_of_spaced_eq (ht j hj) (s.canonical.nonempty i hi)
      (t.canonical.nonempty j hj)) hmap

end RangeSet

/-! ### Constraints -/

namespace Selector

/-- The selector has plain ranges or a name without spaces. -/
def IsPlain : Selector → Prop
  | any => True
  | ranges set _ => set.IsPlain
  | branch name | tag name => ' ' ∉ name.toList

end Selector

namespace Constraint

/-- The constraint has a plain selector, and a revision without spaces if any. -/
def IsPlain : Constraint → Prop
  | nothing => True
  | admits selector r => selector.IsPlain ∧ ∀ x ∈ r, ' ' ∉ x.text.toList

/-- Whether the constraint has ranges, and if so, whether these admit prereleases. -/
def prereleases? : Constraint → Option Bool
  | .admits (.ranges set _) _ => some set.prerelease
  | _ => none

/-- The words that a revision adds to those of a selector. -/
def revisionWords (r : Option Revision) : List (List Char) :=
  r.elim [] fun x => [['@'], x.text.toList]

def words : Constraint → List (List Char)
  | nothing => ["<none>".toList]
  | admits .any none => [['*']]
  | admits .any (some r) => ["rev".toList, r.text.toList]
  | admits (.ranges set _) r => Text.spaced (toString set) ++ revisionWords r
  | admits (.branch name) r => ["branch".toList, name.toList] ++ revisionWords r
  | admits (.tag name) r => ["tag".toList, name.toList] ++ revisionWords r

/-- What the first word of a constraint tells about it. -/
inductive Kind
  | nothing
  | revision
  | ranges
  | branch
  | tag
deriving DecidableEq

/-- The kind of a constraint. The one that every version satisfies is written like ranges. -/
def kind : Constraint → Kind
  | nothing => .nothing
  | admits .any none | admits (.ranges ..) _ => .ranges
  | admits .any (some _) => .revision
  | admits (.branch _) _ => .branch
  | admits (.tag _) _ => .tag

/-- The kind of the constraints that begin with a word. -/
def Kind.ofWord (word : List Char) : Kind :=
  if word = "<none>".toList then nothing
  else if word = "rev".toList then revision
  else if word = "branch".toList then branch
  else if word = "tag".toList then tag
  else ranges

/-- The text of a selector followed by a revision. -/
def revised (text : String) (r : Option Revision) : String :=
  r.elim text fun x => s!"{text} @ {x.text}"

private theorem spaced_revised {r : Option Revision} (hr : ∀ x ∈ r, ' ' ∉ x.text.toList) (text :
    String) :
    Text.spaced (revised text r) = Text.spaced text ++ revisionWords r := by
  cases r with
  | none => exact (List.append_nil _).symm
  | some x =>
      have hjoin : revised text (some x) = text ++ " " ++ ("@" ++ " " ++ x.text) := by
        simp only [revised, Option.elim, String.append_assoc]
        rfl
      rw [hjoin, Text.spaced_append_space, Text.spaced_append_space,
        Text.spaced_of_notMem (hr x rfl)]
      rfl

private theorem spaced_name {name : String} (h : ' ' ∉ name.toList) (kind : String) :
    Text.spaced (kind ++ " " ++ name) = Text.spaced kind ++ [name.toList] := by
  rw [Text.spaced_append_space, Text.spaced_of_notMem h]

theorem IsPlain.spaced_toString {c : Constraint} (h : c.IsPlain) :
    Text.spaced (toString c) = c.words := by
  cases c with
  | nothing => rfl
  | admits selector r =>
      obtain ⟨hselector, hr⟩ := h
      cases selector with
      | any =>
          cases r with
          | none => rfl
          | some x => exact spaced_name (hr x rfl) "rev"
      | ranges set hset =>
          have htext : toString (admits (.ranges set hset) r) = revised (toString set) r := by
            cases r <;> rfl
          rw [htext, spaced_revised hr]
          rfl
      | branch name =>
          have htext : toString (admits (.branch name) r) =
              revised ("branch" ++ " " ++ name) r := by
            cases r <;> rfl
          rw [htext, spaced_revised hr, spaced_name hselector]
          rfl
      | tag name =>
          have htext : toString (admits (.tag name) r) = revised ("tag" ++ " " ++ name) r := by
            cases r <;> rfl
          rw [htext, spaced_revised hr, spaced_name hselector]
          rfl

theorem IsPlain.ofWord_head {c : Constraint} (h : c.IsPlain) :
    c.words.head?.map Kind.ofWord = some c.kind := by
  cases c with
  | nothing => rfl
  | admits selector r =>
      cases selector with
      | any => cases r <;> rfl
      | branch name => rfl
      | tag name => rfl
      | ranges set hset =>
          have hwords : ∀ word ∈ ["<none>", "rev", "branch", "tag"].map String.toList,
              ¬(word = ['|', '|'] ∨ Interval.IsMarked word) := by
            decide
          rw [words, List.head?_append_of_ne_nil _ (Text.spaced_ne_nil _)]
          cases hspaced : Text.spaced (toString set) with
          | nil => exact absurd hspaced (Text.spaced_ne_nil _)
          | cons word rest =>
              have hne : ∀ other ∈ ["<none>", "rev", "branch", "tag"].map String.toList,
                  word ≠ other := by
                rintro other hother rfl
                exact hwords word hother (RangeSet.IsPlain.eq_or_isMarked h.1 hset
                  (hspaced ▸ List.mem_cons_self))
              simp only [List.map_cons, List.map_nil, List.forall_mem_cons] at hne
              obtain ⟨hnone, hrev, hbranch, htag, -⟩ := hne
              simp only [List.head?_cons, Option.map_some, Kind.ofWord, if_neg hnone, if_neg hrev,
                if_neg hbranch, if_neg htag, kind]

theorem revisionWords_injective : Function.Injective revisionWords := by
  intro r r' h
  cases r with
  | none =>
      cases r' with
      | none => rfl
      | some x => cases h
  | some x =>
      cases r' with
      | none => cases h
      | some y =>
          have htext := String.toList_inj.mp (List.cons.inj (List.cons.inj h).2).1
          exact congrArg (fun text => some (Revision.mk text)) htext

private theorem eq_of_ranges_words_eq {s t : RangeSet} {hs' : s.isEmpty = false} {ht' :
    t.isEmpty = false}
    {r q : Option Revision} (hs : s.IsPlain) (ht : t.IsPlain)
    (hprerelease : s.prerelease = t.prerelease)
    (h : (admits (.ranges s hs') r).words = (admits (.ranges t ht') q).words) :
    admits (.ranges s hs') r = admits (.ranges t ht') q := by
  have hat : ∀ u : RangeSet, u.IsPlain → u.isEmpty = false → ∀ word ∈ Text.spaced (toString u),
      decide (word ≠ ['@']) = true := by
    intro u hu hu' word hword
    rw [decide_eq_true_eq]
    rintro rfl
    exact absurd (hu.eq_or_isMarked hu' hword) (by decide)
  have hrevision : ∀ (x : Option Revision), ∀ word ∈ (revisionWords x).head?,
      decide (word ≠ ['@']) = false := by
    intro x word hword
    cases x with
    | none => cases hword
    | some x =>
        cases hword
        rfl
  obtain ⟨hspaced, hwords⟩ := Text.append_inj_of_run (hat s hs hs') (hat t ht ht')
    (hrevision r) (hrevision q) h
  obtain rfl := revisionWords_injective hwords
  have hintervals := hs.intervals_eq_of_spaced_eq ht hs' ht' hspaced
  cases s
  cases t
  cases hintervals
  cases hprerelease
  rfl

private theorem eq_of_kind (d : Constraint) :
    match d.kind with
    | .nothing => d = nothing
    | .revision => ∃ x, d = admits .any (some x)
    | .ranges => d = any ∨ ∃ t ht q, d = admits (.ranges t ht) q
    | .branch => ∃ name q, d = admits (.branch name) q
    | .tag => ∃ name q, d = admits (.tag name) q := by
  cases d with
  | nothing => rfl
  | admits selector r =>
      cases selector with
      | any =>
          cases r with
          | none => exact .inl rfl
          | some x => exact ⟨x, rfl⟩
      | ranges set hset => exact .inr ⟨set, hset, r, rfl⟩
      | branch name => exact ⟨name, r, rfl⟩
      | tag name => exact ⟨name, r, rfl⟩

private theorem eq_of_named_words_eq {word name name' : List Char} {r q : Option Revision}
    (h : [word, name] ++ revisionWords r = [word, name'] ++ revisionWords q) :
    name = name' ∧ r = q := by
  obtain ⟨hname, hrevision⟩ := List.cons.inj (List.cons.inj h).2
  exact ⟨hname, revisionWords_injective hrevision⟩

/-- Plain constraints with the same text are the same, if they agree in what no text says. -/
theorem IsPlain.eq_of_toString_eq {c d : Constraint} (hc : c.IsPlain) (hd : d.IsPlain)
    (hprereleases : c.prereleases? = d.prereleases?) (h : toString c = toString d) : c = d := by
  have hwords : c.words = d.words := by
    rw [← hc.spaced_toString, ← hd.spaced_toString, h]
  have hkind : c.kind = d.kind := by
    rw [← Option.some.injEq, ← hc.ofWord_head, ← hd.ofWord_head, hwords]
  have hshape := d.eq_of_kind
  rw [← hkind] at hshape
  cases c with
  | nothing => exact hshape.symm
  | admits selector r =>
      cases selector with
      | any =>
          cases r with
          | none =>
              rcases hshape with rfl | ⟨t, ht, q, rfl⟩
              · rfl
              · cases hprereleases
          | some x =>
              obtain ⟨y, rfl⟩ := hshape
              have htext := String.toList_inj.mp (List.cons.inj (List.cons.inj hwords).2).1
              exact congrArg (fun text => admits .any (some ⟨text⟩)) htext
      | ranges s hs =>
          rcases hshape with rfl | ⟨t, ht, q, rfl⟩
          · cases hprereleases
          · exact eq_of_ranges_words_eq hc.1 hd.1 (Option.some.inj hprereleases) hwords
      | branch name =>
          obtain ⟨name', q, rfl⟩ := hshape
          obtain ⟨hname, rfl⟩ := eq_of_named_words_eq hwords
          rw [String.toList_inj.mp hname]
      | tag name =>
          obtain ⟨name', q, rfl⟩ := hshape
          obtain ⟨hname, rfl⟩ := eq_of_named_words_eq hwords
          rw [String.toList_inj.mp hname]

end Constraint

end DepSolver
