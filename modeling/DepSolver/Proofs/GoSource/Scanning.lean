import DepSolver.GoSource.Header
import DepSolver.Proofs.Text

/-!
The tokens of a header, as they are written and as they are read: what stands between tokens, words,
and strings. Each is read to its end, whatever follows that cannot belong to it.
-/

namespace DepSolver.GoSource

variable {c : Char} {fuel : Nat} {next out word : List Char}

/-! ### Between tokens -/

/-- A blank, a semicolon or a comment. A comment of one line ends with the line. -/
inductive Filler
  | mark (c : Char) (h : isTrivial c = true)
  | lineComment (body : List Char) (h : '\n' ∉ body)
  | blockComment (body : List Char) (h : ¬ ['*', '/'] <:+: body)

def Filler.text : Filler → List Char
  | mark c _ => [c]
  | lineComment body _ => "//".toList ++ body ++ ['\n']
  | blockComment body _ => "/*".toList ++ body ++ "*/".toList

abbrev Gap := List Filler

def Gap.text (gap : Gap) : List Char := gap.flatMap Filler.text

/-- A text that starts with a token, or no text. -/
structure StartsToken (l : List Char) : Prop where
  head : ∀ c ∈ l.head?, isTrivial c = false
  not_comment : ¬ ['/', '/'] <+: l ∧ ¬ ['/', '*'] <+: l

theorem skipTrivia_of_startsToken (h : StartsToken next) (fuel : Nat) :
    skipTrivia fuel next = .ok next := by
  have hdrop : next.dropWhile isTrivial = next := by
    simpa using Text.dropWhile_append_of_head (a := []) (by simp) h.head
  rw [skipTrivia.eq_def, hdrop]
  split
  · exact absurd ⟨_, rfl⟩ h.not_comment.1
  · exact absurd ⟨_, rfl⟩ h.not_comment.2
  · rfl

private theorem skipTrivia_cons (h : isTrivial c = true) :
    skipTrivia fuel (c :: next) = skipTrivia fuel next := by
  rw [skipTrivia.eq_def, skipTrivia.eq_def fuel next, List.dropWhile_cons_of_pos h]

theorem skipTrivia_lineComment {body : List Char} (h : '\n' ∉ body) (fuel : Nat)
    (next : List Char) :
    skipTrivia (fuel + 1) ('/' :: '/' :: (body ++ next)) =
      skipTrivia fuel (next.dropWhile (· ≠ '\n')) := by
  have hbody : ∀ c ∈ body, decide (c ≠ '\n') = true := by
    intro c hc
    rw [decide_eq_true_eq]
    rintro rfl
    exact h hc
  have hslash : isTrivial '/' = false := by decide
  rw [skipTrivia.eq_def, List.dropWhile_cons_of_neg (by simp [hslash])]
  simp only
  rw [List.dropWhile_append_of_pos hbody]

private theorem skipTrivia_blockComment {body : List Char} (h : ¬ ['*', '/'] <:+: body) :
    skipTrivia (fuel + 1) ('/' :: '*' :: (body ++ ['*', '/'] ++ next)) = skipTrivia fuel next := by
  have hcut : Text.cut? ['*', '/'] (body ++ ['*', '/'] ++ next) = some (body, next) := by
    refine Text.cut?_append (by simp) fun start hstart hne hprefix => ?_
    -- The first two characters of `start` would be in the body, and a single one is no `*/`.
    match start, hne with
    | [c], _ => simp at hprefix
    | c :: d :: start, _ =>
        have hcd : c = '*' ∧ d = '/' := by simpa [eq_comm] using hprefix
        obtain ⟨rfl, rfl⟩ := hcd
        exact h ((List.prefix_append ['*', '/'] start).isInfix.trans hstart.isInfix)
  have hslash : isTrivial '/' = false := by decide
  rw [skipTrivia.eq_def, List.dropWhile_cons_of_neg (by simp [hslash])]
  simp only
  rw [hcut]

private theorem skipTrivia_gap (h : ∀ fuel, skipTrivia (fuel + 1) next = .ok out) (gap : Gap)
    (fuel : Nat) : skipTrivia (fuel + gap.length + 1) (gap.text ++ next) = .ok out := by
  induction gap generalizing fuel with
  | nil => exact h fuel
  | cons filler gap ih =>
      have hfuel : fuel + (filler :: gap).length + 1 = (fuel + gap.length + 1) + 1 := by
        simp only [List.length_cons]
        omega
      rw [Gap.text, List.flatMap_cons, ← Gap.text, List.append_assoc]
      cases filler with
      | mark c hc =>
          have hrest := ih (fuel + 1)
          rw [Filler.text, List.singleton_append, skipTrivia_cons hc, hfuel]
          rwa [Nat.add_right_comm fuel] at hrest
      | lineComment body hbody =>
          have hline : isTrivial '\n' = true := by decide
          rw [hfuel]
          change skipTrivia _ ('/' :: '/' :: (body ++ ['\n'] ++ _)) = _
          rw [List.append_assoc, skipTrivia_lineComment hbody]
          change skipTrivia _ ('\n' :: _) = _
          rw [skipTrivia_cons hline]
          exact ih fuel
      | blockComment body hbody =>
          rw [hfuel]
          change skipTrivia _ ('/' :: '*' :: (body ++ ['*', '/'] ++ _)) = _
          rw [skipTrivia_blockComment hbody]
          exact ih fuel

theorem length_le_length_flatMap {α : Type} {f : α → List Char} (h : ∀ a, f a ≠ [])
    (l : List α) : l.length ≤ (l.flatMap f).length := by
  induction l with
  | nil => exact Nat.zero_le 0
  | cons a l ih =>
      have hpos : 0 < (f a).length := List.length_pos_of_ne_nil (h a)
      rw [List.flatMap_cons, List.length_append, List.length_cons]
      omega

theorem Gap.length_le_length_text (gap : Gap) : gap.length ≤ gap.text.length :=
  length_le_length_flatMap (fun filler => by cases filler <;> simp [Filler.text]) gap

theorem afterTrivia_gap (h : ∀ fuel, skipTrivia (fuel + 1) next = .ok out) (gap : Gap) :
    afterTrivia (gap.text ++ next) = .ok out := by
  obtain ⟨extra, hextra⟩ := Nat.exists_eq_add_of_le gap.length_le_length_text
  have hlength : (gap.text ++ next).length = extra + next.length + gap.length := by
    rw [List.length_append]
    omega
  rw [afterTrivia, hlength]
  exact skipTrivia_gap h gap _

theorem afterTrivia_of_startsToken (gap : Gap) (h : StartsToken next) :
    afterTrivia (gap.text ++ next) = .ok next :=
  afterTrivia_gap (fun _ => skipTrivia_of_startsToken h _) gap

theorem afterTrivia_lastComment (gap : Gap) {body : List Char} (h : '\n' ∉ body) :
    afterTrivia (gap.text ++ '/' :: '/' :: body) = .ok [] := by
  refine afterTrivia_gap (fun fuel => ?_) gap
  have hnil : StartsToken [] := ⟨by simp, by simp⟩
  simpa [skipTrivia_of_startsToken hnil] using skipTrivia_lineComment h fuel []

/-! ### Words -/

/-- The codes of blanks and of the semicolon. -/
def trivialCodes : List Nat :=
  [9, 10, 11, 12, 13, 0x20, 0x3b, 0x85, 0xa0, 0x1680, 0x2000, 0x2001, 0x2002, 0x2003, 0x2004,
    0x2005, 0x2006, 0x2007, 0x2008, 0x2009, 0x200a, 0x2028, 0x2029, 0x202f, 0x205f, 0x3000]

private theorem toNat_mem_trivialCodes (h : isTrivial c = true) : c.toNat ∈ trivialCodes := by
  rw [isTrivial, Bool.or_eq_true, decide_eq_true_eq] at h
  rcases h with hblank | rfl
  · simp only [Text.isBlank, Bool.or_eq_true, Bool.and_eq_true, decide_eq_true_eq,
      beq_iff_eq] at hblank
    simp only [trivialCodes, List.mem_cons, List.not_mem_nil, or_false]
    omega
  · decide

theorem isWordChar_of_isTrivial (h : isTrivial c = true) : isWordChar c = false := by
  have hcodes : ∀ n ∈ trivialCodes, isWordChar (Char.ofNat n) = false := by decide +kernel
  simpa using hcodes c.toNat (toNat_mem_trivialCodes h)

/-- A word: word characters, of which the first is no digit. Every identifier is one. -/
structure Word where
  chars : List Char
  isWordChar_of_mem : ∀ c ∈ chars, isWordChar c = true
  head : ∃ c rest, chars = c :: rest ∧ c.isDigit = false

def Word.text (w : Word) : String := .ofList w.chars

theorem takeWord_append (w : Word) (h : ∀ c ∈ next.head?, isWordChar c = false) :
    takeWord (w.chars ++ next) = (some w.text, next) := by
  obtain ⟨c, rest, hchars, hdigit⟩ := w.head
  have htake := Text.takeWhile_append_of_head w.isWordChar_of_mem h
  have hdrop := Text.dropWhile_append_of_head w.isWordChar_of_mem h
  rw [takeWord, htake, hdrop, Word.text, hchars]
  simp [hdigit]

theorem takeWord_of_head (h : ∀ c ∈ next.head?, isWordChar c = false) :
    takeWord next = (none, next) := by
  have htake := Text.takeWhile_append_of_head (a := []) (by simp) h
  rw [List.nil_append] at htake
  rw [takeWord, htake]

theorem takeWhile_of_takeWord {input : List Char} {text : String}
    (h : (takeWord input).1 = some text) : input.takeWhile isWordChar = text.toList := by
  rw [takeWord] at h
  split at h
  · cases h
  · rename_i hword
    split at h
    · cases h
    · rw [Option.some.injEq] at h
      rw [← h, String.toList_ofList]

theorem startsToken_of_isWordChar (h : isWordChar c = true) : StartsToken (c :: next) := by
  have hslash : c ≠ '/' := by
    rintro rfl
    exact absurd h (by decide)
  refine ⟨?_, by simp [hslash.symm], by simp [hslash.symm]⟩
  simp only [List.head?_cons, Option.mem_def, Option.some.injEq]
  rintro _ rfl
  by_contra htrivial
  simp [isWordChar_of_isTrivial (by simpa using htrivial)] at h

theorem startsToken_word (w : Word) (next : List Char) : StartsToken (w.chars ++ next) := by
  obtain ⟨c, rest, hchars, -⟩ := w.head
  rw [hchars]
  exact startsToken_of_isWordChar (w.isWordChar_of_mem c (by simp [hchars]))

theorem Filler.exists_text_eq_cons (filler : Filler) :
    ∃ c rest, filler.text = c :: rest ∧ isWordChar c = false := by
  cases filler with
  | mark c h => exact ⟨c, [], rfl, isWordChar_of_isTrivial h⟩
  | lineComment body => exact ⟨_, _, rfl, by decide⟩
  | blockComment body => exact ⟨_, _, rfl, by decide⟩

theorem isWordChar_head?_gap (gap : Gap)
    (h : gap = [] → ∀ c ∈ next.head?, isWordChar c = false) :
    ∀ c ∈ (gap.text ++ next).head?, isWordChar c = false := by
  cases gap with
  | nil => exact h rfl
  | cons filler gap =>
      obtain ⟨c, rest, htext, hc⟩ := filler.exists_text_eq_cons
      simpa [Gap.text, htext] using hc

/-! ### Strings -/

/-- The path of an import: between quotes, or raw. -/
inductive PathLiteral
  | quoted (body : List Char) (h : ∀ c ∈ body, c ∉ ['"', '\\', '\n'])
  | raw (body : List Char) (h : '`' ∉ body)

namespace PathLiteral

def text : PathLiteral → List Char
  | quoted body _ => '"' :: body ++ ['"']
  | raw body _ => '`' :: body ++ ['`']

def path : PathLiteral → String
  | quoted body _ | raw body _ => .ofList body

theorem exists_text_eq_cons (l : PathLiteral) :
    ∃ c rest, l.text = c :: rest ∧ (c = '"' ∨ c = '`') := by
  cases l with
  | quoted body => exact ⟨_, _, rfl, .inl rfl⟩
  | raw body => exact ⟨_, _, rfl, .inr rfl⟩

end PathLiteral

private theorem readQuoted_append (done : List Char) {body : List Char}
    (h : ∀ c ∈ body, c ∉ ['"', '\\', '\n']) :
    readQuoted done (body ++ '"' :: next) = .ok (.ofList (done.reverse ++ body), next) := by
  induction body generalizing done with
  | nil => simp [readQuoted]
  | cons c body ih =>
      obtain ⟨hc, hbody⟩ := List.forall_mem_cons.mp h
      simp only [List.mem_cons, List.not_mem_nil, or_false, not_or] at hc
      have hrest := ih (c :: done) hbody
      rw [List.reverse_cons, List.append_assoc, List.singleton_append] at hrest
      rw [List.cons_append, readQuoted.eq_def]
      split <;> simp_all

theorem readString_append (l : PathLiteral) :
    readString (l.text ++ next) = .ok (l.path, next) := by
  cases l with
  | quoted body h =>
      change readQuoted [] (body ++ ['"'] ++ next) = _
      rw [List.append_assoc]
      exact readQuoted_append [] h
  | raw body h =>
      have hcut : Text.cut? ['`'] (body ++ ['`'] ++ next) = some (body, next) := by
        refine Text.cut?_append (by simp) fun start hstart hne hprefix => ?_
        obtain ⟨c, start, rfl⟩ := List.exists_cons_of_ne_nil hne
        have hc : '`' = c := by simpa using hprefix
        exact h (hc ▸ hstart.subset List.mem_cons_self)
      have htext : (PathLiteral.raw body h).text ++ next = '`' :: (body ++ ['`'] ++ next) := rfl
      rw [htext, readString]
      simp only [hcut]
      rfl

theorem isWordChar_head?_path (l : PathLiteral) (next : List Char) :
    ∀ c ∈ (l.text ++ next).head?, isWordChar c = false := by
  obtain ⟨c, rest, htext, hc⟩ := l.exists_text_eq_cons
  rw [htext]
  rcases hc with rfl | rfl <;> simp <;> decide

theorem startsToken_path (l : PathLiteral) : StartsToken (l.text ++ next) := by
  obtain ⟨c, rest, htext, hc⟩ := l.exists_text_eq_cons
  rw [htext]
  rcases hc with rfl | rfl <;> exact ⟨by simp; decide, by simp, by simp⟩

end DepSolver.GoSource
