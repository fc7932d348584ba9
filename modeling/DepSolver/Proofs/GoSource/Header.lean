import DepSolver.Proofs.GoSource.Scanning

/-!
Headers of source files, as they are written: a package clause and import declarations. The reader
accepts them with their imports in the order in which they are written, whatever follows, but for
imports whose name is an underscore with more characters after it.
-/

namespace DepSolver.GoSource

variable {next rest : List Char} {fuel : Nat} {done : List String}

/-! ### What is written -/

def packageWord : Word :=
  ⟨"package".toList, List.all_eq_true.mp (by decide), 'p', "ackage".toList, rfl, by decide⟩

def importWord : Word :=
  ⟨"import".toList, List.all_eq_true.mp (by decide), 'i', "mport".toList, rfl, by decide⟩

inductive ImportName
  | dot
  | word (w : Word)

def ImportName.chars : ImportName → List Char
  | dot => ['.']
  | word w => w.chars

/-- Whether a name starts with an underscore, but is not one. -/
def ImportName.isObscured (name : ImportName) : Bool :=
  match name.chars with
  | '_' :: _ :: _ => true
  | _ => false

/-- An import, with or without a name. -/
inductive ImportSpec
  | plain (literal : PathLiteral)
  | named (name : ImportName) (gap : Gap) (literal : PathLiteral)

namespace ImportSpec

def text : ImportSpec → List Char
  | plain literal => literal.text
  | named name gap literal => name.chars ++ gap.text ++ literal.text

def path : ImportSpec → String
  | plain literal | named _ _ literal => literal.path

def isObscured : ImportSpec → Bool
  | plain _ => false
  | named name _ _ => name.isObscured

end ImportSpec

/-- An import declaration: one import, or some in parentheses, each with what stands after it. -/
inductive ImportDeclaration
  | single (gap : Gap) (spec : ImportSpec)
      (h : gap = [] → ∀ c ∈ spec.text.head?, isWordChar c = false)
  | group (gap inside : Gap) (specs : List (ImportSpec × Gap))

namespace ImportDeclaration

def text : ImportDeclaration → List Char
  | single gap spec _ => importWord.chars ++ gap.text ++ spec.text
  | group gap inside specs =>
      importWord.chars ++ gap.text ++ '(' :: inside.text ++
        specs.flatMap (fun x => x.1.text ++ x.2.text) ++ [')']

def specs : ImportDeclaration → List ImportSpec
  | single _ spec _ => [spec]
  | group _ _ specs => specs.map (·.1)

end ImportDeclaration

/-- A package clause and import declarations, with what stands around them. -/
structure HeaderText where
  start : Gap
  between : Gap
  between_ne_nil : between ≠ []
  name : Word
  after : Gap
  declarations : List (ImportDeclaration × Gap)
  after_ne_nil : declarations ≠ [] → after ≠ []

namespace HeaderText

def text (h : HeaderText) : List Char :=
  h.start.text ++ packageWord.chars ++ h.between.text ++ h.name.chars ++ h.after.text ++
    h.declarations.flatMap fun x => x.1.text ++ x.2.text

def specs (h : HeaderText) : List ImportSpec := h.declarations.flatMap (·.1.specs)

/-- What may stand after a header: a comment with which the file ends, or a text without a comment
or the word `import` at its front, such as the empty one. After a package clause alone it does not
go on with the name. -/
inductive IsFollowedBy (h : HeaderText) : List Char → Prop
  | lastComment (body : List Char) (hbody : '\n' ∉ body) : h.IsFollowedBy ('/' :: '/' :: body)
  | other (rest : List Char) (hstart : StartsToken rest)
      (hword : rest.takeWhile isWordChar ≠ importWord.chars)
      (hname : h.declarations = [] → h.after = [] → ∀ c ∈ rest.head?, isWordChar c = false) :
      h.IsFollowedBy rest

end HeaderText

/-! ### What is read -/

theorem ImportDeclaration.text_append_ne_nil (d : ImportDeclaration) (next : List Char) :
    d.text ++ next ≠ [] := by
  cases d <;> simp [text, importWord]

/-- What the reader makes of an import. -/
def ImportSpec.reading (spec : ImportSpec) : Except HeaderError String :=
  if spec.isObscured then .error .noImportPath else .ok spec.path

theorem readImport_eq {input : List Char} (gap : Gap) (h : skipName input = gap.text ++ next)
    (hnext : StartsToken next) : readImport input = readString next := by
  rw [readImport, h, afterTrivia_of_startsToken gap hnext]
  rfl

theorem skipName_of_ne {c : Char} {input : List Char} (h : c ∉ ['.', '_']) :
    skipName (c :: input) = (takeWord (c :: input)).2 := by
  simp only [List.mem_cons, List.not_mem_nil, or_false, not_or] at h
  rw [skipName.eq_def]
  split <;> simp_all

private theorem skipName_path (literal : PathLiteral) (next : List Char) :
    skipName (literal.text ++ next) = literal.text ++ next := by
  obtain ⟨c, rest, htext, hc⟩ := literal.exists_text_eq_cons
  have htake := takeWord_of_head (isWordChar_head?_path literal next)
  rw [htext, List.cons_append] at htake ⊢
  rw [skipName_of_ne (by rcases hc with rfl | rfl <;> decide), htake]

theorem ImportName.isObscured_iff {name : ImportName} :
    name.isObscured = true ↔ ∃ c rest, name.chars = '_' :: c :: rest := by
  rw [isObscured]
  split <;> simp_all

private theorem skipName_append {name : ImportName} (h : ∀ c ∈ next.head?, isWordChar c = false)
    (hname : name.isObscured = false) : skipName (name.chars ++ next) = next := by
  cases name with
  | dot => rfl
  | word w =>
      obtain ⟨c, rest, hchars, -⟩ := w.head
      have hdot : c ≠ '.' := by
        rintro rfl
        exact absurd (w.isWordChar_of_mem '.' (by simp [hchars])) (by decide)
      by_cases hunderscore : c = '_'
      · subst hunderscore
        cases rest with
        | nil => rw [ImportName.chars, hchars]; rfl
        | cons c rest =>
            have hobscured : (ImportName.word w).isObscured = true :=
              ImportName.isObscured_iff.mpr ⟨c, rest, hchars⟩
            rw [hobscured] at hname
            cases hname
      · have htake := takeWord_append w h
        rw [ImportName.chars]
        rw [hchars, List.cons_append] at htake ⊢
        rw [skipName_of_ne (by simp [hdot, hunderscore]), htake]

/-- Of a name that goes on after an underscore, the rest is taken for the path. -/
theorem readImport_of_isObscured {name : ImportName} (h : name.isObscured = true)
    (next : List Char) : readImport (name.chars ++ next) = .error .noImportPath := by
  obtain ⟨c, rest, hchars⟩ := ImportName.isObscured_iff.mp h
  have hc : isWordChar c = true := by
    cases name with
    | dot => cases hchars
    | word w => exact w.isWordChar_of_mem c (by simp [show w.chars = _ from hchars])
  have hskip : skipName (name.chars ++ next) = Gap.text [] ++ c :: (rest ++ next) := by
    rw [hchars]
    rfl
  rw [readImport_eq [] hskip (startsToken_of_isWordChar hc), readString.eq_def]
  split
  · rename_i heq
    cases heq
    exact absurd hc (by decide)
  · rename_i heq
    cases heq
    exact absurd hc (by decide)
  · rfl

theorem readImport_append (spec : ImportSpec) (next : List Char) :
    readImport (spec.text ++ next) = spec.reading.map (·, next) := by
  cases spec with
  | plain literal =>
      exact (readImport_eq [] (skipName_path literal next) (startsToken_path literal)).trans
        (readString_append literal)
  | named name gap literal =>
      rw [ImportSpec.text, List.append_assoc, List.append_assoc, ImportSpec.reading,
        ImportSpec.isObscured]
      cases hname : name.isObscured with
      | true => exact readImport_of_isObscured hname _
      | false =>
          have hskip := skipName_append (isWordChar_head?_gap gap fun _ =>
            isWordChar_head?_path literal next) hname
          rw [readImport_eq gap hskip (startsToken_path literal), readString_append]
          rfl

theorem ImportSpec.exists_text_eq_cons (spec : ImportSpec) (next : List Char) :
    ∃ c rest, spec.text ++ next = c :: rest ∧ c ∉ ['(', ')'] ∧ StartsToken (c :: rest) := by
  cases spec with
  | plain literal =>
      have hstart : StartsToken (literal.text ++ next) := startsToken_path literal
      obtain ⟨c, rest, htext, hc⟩ := literal.exists_text_eq_cons
      rw [htext, List.cons_append] at hstart
      refine ⟨c, rest ++ next, by rw [text, htext, List.cons_append], ?_, hstart⟩
      rcases hc with rfl | rfl <;> decide
  | named name gap literal =>
      cases name with
      | dot => exact ⟨'.', _, rfl, by decide, by simp; decide, by simp, by simp⟩
      | word w =>
          obtain ⟨c, rest, hchars, -⟩ := w.head
          have hc : isWordChar c = true := w.isWordChar_of_mem c (by simp [hchars])
          refine ⟨c, rest ++ gap.text ++ literal.text ++ next, ?_, ?_, startsToken_of_isWordChar hc⟩
          · simp [text, ImportName.chars, hchars]
          · rintro hparenthesis
            rcases List.mem_pair.mp hparenthesis with rfl | rfl <;> exact absurd hc (by decide)

private theorem readGroup_close (gap : Gap) :
    readGroup (fuel + 1) done (gap.text ++ ')' :: next) = .ok (done, next) := by
  have hend : StartsToken (')' :: next) := ⟨by simp; decide, by simp, by simp⟩
  rw [readGroup, afterTrivia_of_startsToken gap hend]
  rfl

theorem readGroup_spec (gap : Gap) (spec : ImportSpec) :
    readGroup (fuel + 1) done (gap.text ++ (spec.text ++ next)) =
      spec.reading.bind fun path => readGroup fuel (done ++ [path]) next := by
  obtain ⟨c, rest, htext, hc, hstart⟩ := spec.exists_text_eq_cons next
  have hread := readImport_append spec next
  rw [htext] at hread ⊢
  rw [readGroup, afterTrivia_of_startsToken gap hstart]
  simp only [bind, Except.bind]
  split
  · rename_i heq
    cases heq
    exact absurd hc (by decide)
  · rename_i heq
    cases heq
  · rw [hread]
    cases spec.reading <;> rfl

private theorem readGroup_append (specs : List (ImportSpec × Gap)) (gap : Gap)
    (hfuel : specs.length < fuel) :
    readGroup fuel done
        (gap.text ++ (specs.flatMap (fun x => x.1.text ++ x.2.text) ++ ')' :: next)) =
      ((specs.map (·.1)).mapM ImportSpec.reading).map fun paths => (done ++ paths, next) := by
  obtain ⟨fuel, rfl⟩ := Nat.exists_eq_add_one.mpr (Nat.zero_lt_of_lt hfuel)
  induction specs generalizing gap fuel done with
  | nil =>
      rw [List.flatMap_nil, List.nil_append, readGroup_close]
      simp [pure, Except.pure, Except.map]
  | cons x specs ih =>
      obtain ⟨spec, after⟩ := x
      obtain ⟨fuel, rfl⟩ := Nat.exists_eq_add_one.mpr (by simp at hfuel; omega : 0 < fuel)
      rw [List.flatMap_cons, List.append_assoc, List.append_assoc, readGroup_spec, List.map_cons,
        List.mapM_cons]
      cases spec.reading with
      | error e => rfl
      | ok path =>
          simp only [bind, Except.bind]
          rw [ih _ _ (by simpa using hfuel)]
          cases (specs.map (·.1)).mapM ImportSpec.reading with
          | error e => rfl
          | ok paths => simp [Except.map, pure, Except.pure]

theorem takeWord_import (h : ∀ c ∈ next.head?, isWordChar c = false) :
    takeWord (importWord.chars ++ next) = (some "import", next) :=
  takeWord_append importWord h

private theorem readDeclarations_single (gap before : Gap) (spec : ImportSpec)
    (h : before = [] → ∀ c ∈ spec.text.head?, isWordChar c = false) :
    readDeclarations (fuel + 1) done
        (gap.text ++ (importWord.chars ++ (before.text ++ (spec.text ++ next)))) =
      spec.reading.bind fun path => readDeclarations fuel (done ++ [path]) next := by
  obtain ⟨c, rest, htext, hc, hstart⟩ := spec.exists_text_eq_cons next
  have hhead : (spec.text ++ next).head? = spec.text.head? := by
    obtain ⟨c, rest, htext, -⟩ := spec.exists_text_eq_cons []
    rw [List.append_nil] at htext
    rw [htext]
    rfl
  have hread := readImport_append spec next
  have hword : ∀ c ∈ (before.text ++ (spec.text ++ next)).head?, isWordChar c = false :=
    isWordChar_head?_gap before (hhead ▸ h)
  rw [readDeclarations, afterTrivia_of_startsToken gap (startsToken_word importWord _)]
  simp only [bind, Except.bind, takeWord_import hword]
  rw [htext] at hread ⊢
  rw [afterTrivia_of_startsToken before hstart]
  dsimp only
  split
  · rename_i heq
    cases heq
    exact absurd hc (by decide)
  · rw [hread]
    cases spec.reading <;> rfl

private theorem length_specs_lt (gap : Gap) (specs : List (ImportSpec × Gap)) (next : List Char) :
    specs.length <
      (gap.text ++ (specs.flatMap (fun x => x.1.text ++ x.2.text) ++ ')' :: next)).length + 1 := by
  have hle := length_le_length_flatMap (fun x : ImportSpec × Gap => by
    obtain ⟨c, rest, htext, -⟩ := x.1.exists_text_eq_cons []
    rw [List.append_nil] at htext
    exact (by simp [htext] : x.1.text ++ x.2.text ≠ [])) specs
  simp only [List.length_append]
  omega

private theorem readDeclarations_group (gap before inside : Gap) (specs : List (ImportSpec × Gap)) :
    readDeclarations (fuel + 1) done (gap.text ++ (importWord.chars ++ (before.text ++
        '(' :: (inside.text ++ (specs.flatMap (fun x => x.1.text ++ x.2.text) ++ ')' :: next))))) =
      ((specs.map (·.1)).mapM ImportSpec.reading).bind fun paths =>
        readDeclarations fuel (done ++ paths) next := by
  have hopen : ∀ l, StartsToken ('(' :: l) := fun l => ⟨by simp; decide, by simp, by simp⟩
  have hword : ∀ l, ∀ c ∈ (before.text ++ '(' :: l).head?, isWordChar c = false := fun l =>
    isWordChar_head?_gap before fun _ => by simp; decide
  rw [readDeclarations, afterTrivia_of_startsToken gap (startsToken_word importWord _)]
  simp only [bind, Except.bind, takeWord_import (hword _)]
  rw [afterTrivia_of_startsToken before (hopen _)]
  dsimp only
  split
  · rename_i heq
    cases heq
    rw [readGroup_append specs inside (length_specs_lt inside specs next)]
    cases (specs.map (·.1)).mapM ImportSpec.reading <;> rfl
  · rename_i hne
    exact absurd rfl (hne _)

private theorem readDeclarations_declaration (gap : Gap) (d : ImportDeclaration) :
    readDeclarations (fuel + 1) done (gap.text ++ (d.text ++ next)) =
      (d.specs.mapM ImportSpec.reading).bind fun paths =>
        readDeclarations fuel (done ++ paths) next := by
  cases d with
  | single before spec h =>
      simp only [ImportDeclaration.text, List.append_assoc]
      rw [readDeclarations_single gap before spec h, ImportDeclaration.specs, List.mapM_cons,
        List.mapM_nil]
      cases spec.reading <;> rfl
  | group before inside specs =>
      simp only [ImportDeclaration.text, List.append_assoc, List.cons_append, List.nil_append]
      exact readDeclarations_group gap before inside specs

private theorem readDeclarations_append (declarations : List (ImportDeclaration × Gap)) (gap : Gap)
    {rest out : List Char} (hrest : ∀ gap : Gap, afterTrivia (gap.text ++ rest) = .ok out)
    (hword : (takeWord out).1 ≠ some "import") (hfuel : declarations.length < fuel) :
    readDeclarations fuel done
        (gap.text ++ (declarations.flatMap (fun x => x.1.text ++ x.2.text) ++ rest)) =
      ((declarations.flatMap (·.1.specs)).mapM ImportSpec.reading).map (done ++ ·) := by
  obtain ⟨fuel, rfl⟩ := Nat.exists_eq_add_one.mpr (Nat.zero_lt_of_lt hfuel)
  induction declarations generalizing gap fuel done with
  | nil =>
      rw [List.flatMap_nil, List.nil_append, readDeclarations, hrest]
      simp only [bind, Except.bind]
      split
      · rename_i heq
        exact absurd (by rw [heq]) hword
      · simp [pure, Except.pure, Except.map]
  | cons x declarations ih =>
      obtain ⟨d, after⟩ := x
      obtain ⟨fuel, rfl⟩ := Nat.exists_eq_add_one.mpr (by simp at hfuel; omega : 0 < fuel)
      rw [List.flatMap_cons, List.append_assoc, List.append_assoc, readDeclarations_declaration,
        List.flatMap_cons, List.mapM_append]
      cases d.specs.mapM ImportSpec.reading with
      | error e => rfl
      | ok paths =>
          simp only [bind, Except.bind]
          rw [ih _ _ (by simpa using hfuel)]
          cases (declarations.flatMap (·.1.specs)).mapM ImportSpec.reading with
          | error e => rfl
          | ok paths' => simp [Except.map, pure, Except.pure]

namespace HeaderText

variable {h : HeaderText}

theorem IsFollowedBy.exists_afterTrivia (hrest : h.IsFollowedBy rest) :
    ∃ out, (∀ gap : Gap, afterTrivia (gap.text ++ rest) = .ok out) ∧
      (takeWord out).1 ≠ some "import" := by
  cases hrest with
  | lastComment body hbody =>
      exact ⟨[], fun gap => afterTrivia_lastComment gap hbody, by decide⟩
  | other _ hstart hword =>
      exact ⟨rest, fun gap => afterTrivia_of_startsToken gap hstart,
        fun htake => hword (takeWhile_of_takeWord htake)⟩

theorem IsFollowedBy.isWordChar_head? (hrest : h.IsFollowedBy rest)
    (hdeclarations : h.declarations = []) (hafter : h.after = []) :
    ∀ c ∈ rest.head?, isWordChar c = false := by
  cases hrest with
  | lastComment => simp; decide
  | other _ _ _ hname => exact hname hdeclarations hafter

theorem readHeader_eq (hrest : h.IsFollowedBy rest) :
    readHeader (.ofList (h.text ++ rest)) =
      (h.specs.mapM ImportSpec.reading).map (⟨h.name.text, ·⟩) := by
  obtain ⟨out, hout, hword⟩ := hrest.exists_afterTrivia
  let tail := h.after.text ++ (h.declarations.flatMap (fun x => x.1.text ++ x.2.text) ++ rest)
  have htail : ∀ c ∈ tail.head?, isWordChar c = false := by
    refine isWordChar_head?_gap h.after fun hafter => ?_
    have hdeclarations : h.declarations = [] := by_contra fun hne => h.after_ne_nil hne hafter
    rw [hdeclarations]
    exact hrest.isWordChar_head? hdeclarations hafter
  have hfuel : h.declarations.length < tail.length + 1 := by
    have hle := length_le_length_flatMap (fun x : ImportDeclaration × Gap => x.1.text_append_ne_nil
      x.2.text) h.declarations
    simp only [tail, List.length_append]
    omega
  have htext : h.text ++ rest = h.start.text ++ (packageWord.chars ++ (h.between.text ++
      (h.name.chars ++ tail))) := by
    simp only [text, List.append_assoc, tail]
  have hbetween : ∀ c ∈ (h.between.text ++ (h.name.chars ++ tail)).head?, isWordChar c = false :=
    isWordChar_head?_gap h.between fun hnil => absurd hnil h.between_ne_nil
  have hpackage : takeWord (packageWord.chars ++ (h.between.text ++ (h.name.chars ++ tail))) =
      (some "package", h.between.text ++ (h.name.chars ++ tail)) :=
    takeWord_append packageWord hbetween
  rw [readHeader, String.toList_ofList, htext,
    afterTrivia_of_startsToken h.start (startsToken_word packageWord _)]
  simp only [bind, Except.bind, hpackage]
  rw [afterTrivia_of_startsToken h.between (startsToken_word h.name _)]
  simp only [takeWord_append h.name htail]
  rw [readDeclarations_append h.declarations h.after hout hword hfuel, ← specs]
  cases h.specs.mapM ImportSpec.reading <;> rfl

end HeaderText

theorem mapM_reading (specs : List ImportSpec) :
    specs.mapM ImportSpec.reading =
      if specs.any (·.isObscured) then .error .noImportPath else .ok (specs.map (·.path)) := by
  induction specs with
  | nil => rfl
  | cons spec specs ih =>
      rw [List.mapM_cons, ih, ImportSpec.reading]
      cases hspec : spec.isObscured with
      | true => simp [hspec, bind, Except.bind]
      | false =>
          cases hspecs : specs.any (·.isObscured) <;>
            simp [hspec, hspecs, bind, Except.bind, pure, Except.pure]

/-- A header is read as it is written, unless an import has a name that goes on after an
underscore. Then the reader takes the rest of that name for a path that is no string. -/
theorem readHeader_text {h : HeaderText} (hrest : h.IsFollowedBy rest) :
    readHeader (.ofList (h.text ++ rest)) =
      if h.specs.any (·.isObscured) then .error .noImportPath
      else .ok ⟨h.name.text, h.specs.map (·.path)⟩ := by
  rw [HeaderText.readHeader_eq hrest, mapM_reading]
  split <;> rfl

def plainName : Word := ⟨['l'], List.all_eq_true.mp (by decide), 'l', [], rfl, by decide⟩

def obscuredName : Word :=
  ⟨['_', 'l'], List.all_eq_true.mp (by decide), '_', ['l'], rfl, by decide⟩

/-- A package with three imports, of which the first one has a name. -/
def namedImport (name : Word) : HeaderText where
  start := [.lineComment " A package.".toList (by decide)]
  between := [.mark ' ' (by decide)]
  between_ne_nil := by simp
  name := ⟨['a'], List.all_eq_true.mp (by decide), 'a', [], rfl, by decide⟩
  after := [.mark ';' (by decide)]
  declarations :=
    [(.single [.blockComment ['*'] (by decide)]
        (.named (.word name) [] (.quoted ['b'] (by simp))) (by simp), []),
      (.group [] [.lineComment [] (by decide)]
        [(.named .dot [.mark '\t' (by decide)] (.raw ['c'] (by decide)), []),
          (.plain (.quoted ['d'] (by simp)), [])], [.mark '\n' (by decide)])]
  after_ne_nil := by simp

theorem isFollowedBy_namedImport (name : Word) :
    (namedImport name).IsFollowedBy "func f() {}".toList :=
  .other _ ⟨by simp; decide, by decide, by decide⟩ (by decide) (by simp [namedImport])

theorem readHeader_namedImport :
    (namedImport plainName).IsFollowedBy "func f() {}".toList ∧
      readHeader (.ofList ((namedImport plainName).text ++ "func f() {}".toList)) =
        .ok ⟨"a", ["b", "c", "d"]⟩ :=
  ⟨isFollowedBy_namedImport _, (readHeader_text (isFollowedBy_namedImport _)).trans rfl⟩

/-- A header whose first import has a name such as `_l` is not read. -/
theorem not_readHeader_eq_ok : ¬ ∀ (h : HeaderText) (rest : List Char), h.IsFollowedBy rest →
    readHeader (.ofList (h.text ++ rest)) = .ok ⟨h.name.text, h.specs.map (·.path)⟩ := by
  intro hread
  have hok := hread (namedImport obscuredName) _ (isFollowedBy_namedImport _)
  have herror := HeaderText.readHeader_eq (isFollowedBy_namedImport obscuredName)
  rw [hok] at herror
  cases herror

end DepSolver.GoSource
