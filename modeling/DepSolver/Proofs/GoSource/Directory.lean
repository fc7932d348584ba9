import DepSolver.Proofs.GoSource.Summary
import DepSolver.Proofs.PackageTree.Build

/-!
The package of a directory: the summary of those of its source files that no build constraint leaves
out.
-/

namespace DepSolver.GoSource

/-! ### Files that are left out -/

/-- A line that may stand before a build constraint: a blank one, or a comment that is none. -/
def IsPassed (line : List Char) : Prop :=
  Text.strip Text.isBlank line = [] ∨
    "//".toList <+: Text.strip Text.isBlank line ∧
      ¬ "//go:build".toList <+: Text.strip Text.isBlank line ∧
      ¬ "// +build".toList <+: Text.strip Text.isBlank line

/-- A build constraint that leaves a file out of every build. -/
def AsksToIgnore (line : List Char) : Prop :=
  (∃ condition, Text.strip Text.isBlank line = "//go:build".toList ++ condition ∧
    Text.strip Text.isBlank condition = "ignore".toList) ∨
  ∃ tags, Text.strip Text.isBlank line = "// +build".toList ++ tags ∧
    "ignore".toList ∈ Text.words tags

private theorem build_append_ne (x y : List Char) :
    "//go:build".toList ++ x ≠ "// +build".toList ++ y := by
  intro h
  have hthree : ['/', '/', 'g'] = ['/', '/', ' '] := congrArg (List.take 3) h
  exact absurd hthree (by decide)

private theorem isIgnored_cons {line : List Char} {rest : List (List Char)} :
    isIgnored (line :: rest) = true ↔
      AsksToIgnore line ∨ IsPassed line ∧ isIgnored rest = true := by
  have hcomment : "//".toList ≠ [] ∧ "//".toList <+: "//go:build".toList ∧
      "//".toList <+: "// +build".toList := by decide
  have hne := build_append_ne
  rw [isIgnored, AsksToIgnore, IsPassed]
  generalize Text.strip Text.isBlank line = s
  generalize "//".toList = comment, "//go:build".toList = build, "// +build".toList = oldBuild at *
  generalize "ignore".toList = ignore
  obtain ⟨hcomment, hbuild, hold⟩ := hcomment
  have hstart : ∀ mark tail, comment <+: mark → mark ++ tail ≠ [] ∧
      Text.dropStart? comment (mark ++ tail) ≠ none := by
    intro mark tail hmark
    have hprefix : comment <+: mark ++ tail := hmark.trans (List.prefix_append mark tail)
    exact ⟨fun hnil => hcomment (List.prefix_nil.mp (hnil ▸ hprefix)),
      fun hnone => Text.dropStart?_eq_none_iff.mp hnone hprefix⟩
  cases hnew : Text.dropStart? build s with
  | some condition =>
      obtain rfl := Text.dropStart?_eq_some_iff.mp hnew
      simp [hstart build condition hbuild, hne]
  | none =>
      have hnotNew := Text.dropStart?_eq_none_iff.mp hnew
      cases hold' : Text.dropStart? oldBuild s with
      | some tags =>
          obtain rfl := Text.dropStart?_eq_some_iff.mp hold'
          simp [hstart oldBuild tags hold, (hne _ _).symm]
      | none =>
          have hnotOld := Text.dropStart?_eq_none_iff.mp hold'
          rw [or_iff_right]
          · by_cases hempty : s = [] <;>
              simp [hempty, hnotNew, hnotOld, Text.dropStart?_eq_none_iff]
          · rintro (⟨tail, rfl, -⟩ | ⟨tail, rfl, -⟩)
            · exact hnotNew (List.prefix_append build tail)
            · exact hnotOld (List.prefix_append oldBuild tail)

theorem isIgnored_iff {lines : List (List Char)} : isIgnored lines = true ↔
    ∃ before line after, lines = before ++ line :: after ∧ (∀ l ∈ before, IsPassed l) ∧
      AsksToIgnore line := by
  induction lines with
  | nil => simp [isIgnored]
  | cons first rest ih =>
      rw [isIgnored_cons, ih]
      constructor
      · rintro (hasks | ⟨hpassed, before, line, after, rfl, hbefore, hline⟩)
        · exact ⟨[], first, rest, rfl, by simp, hasks⟩
        · exact ⟨first :: before, line, after, rfl, List.forall_mem_cons.mpr ⟨hpassed, hbefore⟩,
            hline⟩
      · rintro ⟨before, line, after, hsplit, hbefore, hline⟩
        cases before with
        | nil =>
            cases hsplit
            exact .inl hline
        | cons l before =>
            cases hsplit
            obtain ⟨hpassed, hbefore⟩ := List.forall_mem_cons.mp hbefore
            exact .inr ⟨hpassed, before, line, after, rfl, hbefore, hline⟩

/-! ### The files of a directory -/

structure SourceFile where
  name : String
  source : String

namespace SourceFile

/-- A build constraint leaves the file out. -/
def IsLeftOut (f : SourceFile) : Prop :=
  ∃ before line after, Text.lines f.source.toList = before ++ line :: after ∧
    (∀ l ∈ before, IsPassed l) ∧ AsksToIgnore line

def parse (f : SourceFile) : Except String ParsedFile :=
  match readHeader f.source with
  | .error e => .error s!"{f.name}: {e.message}"
  | .ok h => .ok ⟨f.name, h⟩

theorem parse_eq_ok_iff {f : SourceFile} {x : ParsedFile} :
    f.parse = .ok x ↔ x.name = f.name ∧ readHeader f.source = .ok x.header := by
  rw [parse]
  cases readHeader f.source with
  | error e => simp
  | ok h =>
      cases x
      simp [eq_comm]

end SourceFile

/-- A source file in a directory that no build constraint leaves out. -/
structure IsRemaining (files : List (String × FileContent)) (f : SourceFile) : Prop where
  mem : (f.name, .text f.source) ∈ files
  isSourceName : isSourceName f.name = true
  not_isLeftOut : ¬ f.IsLeftOut

def IsParsed (files : List (String × FileContent)) (x : ParsedFile) : Prop :=
  ∃ source, IsRemaining files ⟨x.name, source⟩ ∧ readHeader source = .ok x.header

def remaining? (x : String × FileContent) : Option SourceFile :=
  match x.2 with
  | .text source => if isIgnored (Text.lines source.toList) then none else some ⟨x.1, source⟩
  | .binary _ => none

def remaining (files : List (String × FileContent)) : List SourceFile :=
  (files.filter fun x => isSourceName x.1).filterMap remaining?

variable {files : List (String × FileContent)}

theorem remaining?_eq_some_iff {x : String × FileContent} {f : SourceFile} :
    remaining? x = some f ↔ x = (f.name, .text f.source) ∧ ¬ f.IsLeftOut := by
  rw [SourceFile.IsLeftOut, ← isIgnored_iff]
  obtain ⟨name, content⟩ := x
  cases content with
  | binary bytes => simp [remaining?]
  | text source =>
      simp only [remaining?, Option.ite_none_left_eq_some, Option.some_inj]
      constructor
      · rintro ⟨hnot, rfl⟩
        exact ⟨rfl, hnot⟩
      · rintro ⟨heq, hnot⟩
        cases heq
        exact ⟨hnot, rfl⟩

theorem mem_remaining_iff {f : SourceFile} : f ∈ remaining files ↔ IsRemaining files f := by
  simp only [remaining, List.mem_filterMap, List.mem_filter, remaining?_eq_some_iff]
  constructor
  · rintro ⟨x, ⟨hmem, hname⟩, rfl, hnot⟩
    exact ⟨hmem, hname, hnot⟩
  · rintro ⟨hmem, hname, hnot⟩
    exact ⟨_, ⟨hmem, hname⟩, rfl, hnot⟩

private theorem addFile_eq (s : Summary) {x : String × FileContent} (h :
    ∃ source, x.2 = .text source) :
    s.addFile x.1 x.2 =
      match remaining? x with
      | none => .ok s
      | some f => f.parse >>= fun x => s.addHeader x.name x.header := by
  obtain ⟨name, content⟩ := x
  obtain ⟨source, rfl⟩ := h
  rw [Summary.addFile, remaining?]
  dsimp only
  cases isIgnored (Text.lines source.toList) with
  | true => rfl
  | false =>
      simp only [Bool.false_eq_true, if_false, SourceFile.parse]
      cases readHeader source <;> rfl

private theorem foldlM_addFile {l : List (String × FileContent)} (s : Summary)
    (h : ∀ x ∈ l, ∃ source, x.2 = .text source) :
    l.foldlM (fun s x => s.addFile x.1 x.2) s =
      (l.filterMap remaining?).foldlM
        (fun s f => f.parse >>= fun x => s.addHeader x.name x.header) s := by
  induction l generalizing s with
  | nil => rfl
  | cons x l ih =>
      obtain ⟨hx, hl⟩ := List.forall_mem_cons.mp h
      rw [List.foldlM_cons, addFile_eq s hx, List.filterMap_cons]
      cases remaining? x with
      | none => exact ih s hl
      | some f =>
          rw [List.foldlM_cons]
          exact bind_congr fun s' => ih s' hl

theorem packageOf_eq_ok_iff {importPath : String} {r : Option Package}
    (h : ∀ x ∈ files, isSourceName x.1 = true → ∃ source, x.2 = .text source) :
    packageOf files importPath = .ok r ↔
      ∃ l, (remaining files).mapM SourceFile.parse = .ok l ∧ Agree l ∧
        (Summary.ofFiles l).package? importPath = r := by
  have htext : ∀ x ∈ files.filter (fun x => isSourceName x.1), ∃ source, x.2 = .text source := by
    intro x hx
    obtain ⟨hmem, hname⟩ := List.mem_filter.mp hx
    exact h x hmem hname
  have hfold : ∀ s, (files.filter fun x => isSourceName x.1).foldlM
      (fun s x => s.addFile x.1 x.2) Summary.empty = .ok s ↔
        ∃ l, (remaining files).mapM SourceFile.parse = .ok l ∧ Agree l ∧ s = Summary.ofFiles l := by
    intro s
    rw [foldlM_addFile _ htext, ← remaining, foldlM_bind_eq_ok_iff]
    exact exists_congr fun l => and_congr_right fun _ => Summary.foldlM_addHeader_iff agree_nil
  rw [packageOf]
  constructor
  · intro hpackage
    obtain ⟨s, hs, hr⟩ := exists_of_bind_eq_ok hpackage
    obtain ⟨l, hparse, hagree, rfl⟩ := (hfold s).mp hs
    exact ⟨l, hparse, hagree, Except.ok.inj hr⟩
  · rintro ⟨l, hparse, hagree, rfl⟩
    exact bind_eq_ok_iff.mpr ⟨_, (hfold _).mpr ⟨l, hparse, hagree, rfl⟩, rfl⟩

theorem mem_iff_isParsed {l : List ParsedFile} (h : (remaining files).mapM SourceFile.parse = .ok l)
    {x : ParsedFile} : x ∈ l ↔ IsParsed files x := by
  rw [mem_iff_of_mapM_eq_ok h, IsParsed]
  simp only [mem_remaining_iff, SourceFile.parse_eq_ok_iff]
  constructor
  · rintro ⟨⟨_, source⟩, hmem, rfl, hread⟩
    exact ⟨source, hmem, hread⟩
  · rintro ⟨source, hmem, hread⟩
    exact ⟨_, hmem, rfl, hread⟩

private theorem pairwise_parsed {l : List ParsedFile} (h :
    (remaining files).mapM SourceFile.parse = .ok l)
    (hsorted : files.Pairwise fun x y => compare x.1 y.1 = .lt) :
    l.Pairwise fun f g => compare f.name g.name = .lt := by
  have hremaining : (remaining files).Pairwise fun f g => compare f.name g.name = .lt := by
    refine List.Pairwise.filterMap _ ?_ (hsorted.filter _)
    intro x y hlt f hf g hg
    rwa [(remaining?_eq_some_iff.mp hf).1, (remaining?_eq_some_iff.mp hg).1] at hlt
  have hnames : (remaining files).map (·.name) = l.map (·.name) := by
    rw [← List.forall₂_eq_eq_eq, List.forall₂_map_left_iff, List.forall₂_map_right_iff]
    exact (forall₂_of_mapM_eq_ok h).imp fun _ _ hparse =>
      (SourceFile.parse_eq_ok_iff.mp hparse).1.symm
  rw [← List.pairwise_map (f := ParsedFile.name) (R := fun a b => compare a b = .lt), ← hnames,
    List.pairwise_map]
  exact hremaining

section

variable {t : FileTree} {p : FilePath} {importPath : String} (hfiles : t.filesIn p = .ok files)
  (htext : ∀ x ∈ files, isSourceName x.1 = true → ∃ source, x.2 = .text source)

include hfiles htext

theorem analyze_eq_ok_iff {r : Option Package} : analyze t p importPath = .ok r ↔
    ∃ l, (remaining files).mapM SourceFile.parse = .ok l ∧ Agree l ∧
      (Summary.ofFiles l).package? importPath = r := by
  rw [analyze, hfiles]
  exact packageOf_eq_ok_iff htext

theorem exists_analyze_eq_ok_iff : (∃ r, analyze t p importPath = .ok r) ↔
    (∀ f, IsRemaining files f → ∃ h, readHeader f.source = .ok h) ∧
      ∃ name, ∀ f, IsParsed files f → ¬ f.IsExternalTest → f.header.packageName = name := by
  simp only [analyze_eq_ok_iff hfiles htext]
  constructor
  · rintro ⟨r, l, hparse, ⟨name, hname⟩, -⟩
    refine ⟨fun f hf => ?_, name, fun f hf => hname f ((mem_iff_isParsed hparse).mpr hf)⟩
    obtain ⟨x, hx⟩ := exists_mapM_eq_ok_iff.mp ⟨l, hparse⟩ f (mem_remaining_iff.mpr hf)
    exact ⟨x.header, (SourceFile.parse_eq_ok_iff.mp hx).2⟩
  · rintro ⟨hread, name, hname⟩
    have hparse : ∀ f ∈ remaining files, ∃ x, f.parse = .ok x := by
      intro f hf
      obtain ⟨h, hh⟩ := hread f (mem_remaining_iff.mp hf)
      exact ⟨⟨f.name, h⟩, SourceFile.parse_eq_ok_iff.mpr ⟨rfl, hh⟩⟩
    obtain ⟨l, hl⟩ := exists_mapM_eq_ok_iff.mpr hparse
    exact ⟨_, l, hl, ⟨name, fun f hf => hname f ((mem_iff_isParsed hl).mp hf)⟩, rfl⟩

theorem analyze_eq_ok_none_iff :
    analyze t p importPath = .ok none ↔ ∀ f, ¬ IsRemaining files f := by
  simp only [analyze_eq_ok_iff hfiles htext, Summary.package?_ofFiles_eq_none_iff,
    ← mem_remaining_iff, ← List.eq_nil_iff_forall_not_mem]
  constructor
  · rintro ⟨_, hparse, -, rfl⟩
    exact List.forall₂_nil_right_iff.mp (forall₂_of_mapM_eq_ok hparse)
  · intro hnone
    exact ⟨[], by rw [hnone]; rfl, agree_nil, rfl⟩

private theorem isSummary_of_analyze {package : Package}
    (h : analyze t p importPath = .ok (some package)) :
    IsSummary (IsParsed files) importPath package := by
  obtain ⟨l, hparse, hagree, hpackage⟩ := (analyze_eq_ok_iff hfiles htext).mp h
  have hparsed : IsParsed files = (· ∈ l) := funext fun _ => propext (mem_iff_isParsed hparse).symm
  rw [hparsed]
  exact Summary.isSummary_ofFiles hagree
    (pairwise_parsed hparse (FileTree.pairwise_filesIn hfiles)) hpackage

end

/-- A directory is a package if every file of it that no build constraint leaves out can be read,
and those that belong to it agree on its name; and the package is their summary, and no other one
is. -/
theorem analyze_summary {t : FileTree} {p : FilePath} (importPath : String)
    (hfiles : t.filesIn p = .ok files)
    (htext : ∀ x ∈ files, isSourceName x.1 = true → ∃ source, x.2 = .text source) :
    ((∃ r, analyze t p importPath = .ok r) ↔
      (∀ f, IsRemaining files f → ∃ h, readHeader f.source = .ok h) ∧
        ∃ name, ∀ f, IsParsed files f → ¬ f.IsExternalTest → f.header.packageName = name) ∧
    (analyze t p importPath = .ok none ↔ ∀ f, ¬ IsRemaining files f) ∧
    ∀ package, analyze t p importPath = .ok (some package) →
      ∀ other, IsSummary (IsParsed files) importPath other ↔ other = package := by
  refine ⟨exists_analyze_eq_ok_iff hfiles htext, analyze_eq_ok_none_iff hfiles htext,
    fun package hpackage other => ?_⟩
  have hsummary := isSummary_of_analyze hfiles htext hpackage
  constructor
  · intro hother
    exact hother.eq hsummary
  · rintro rfl
    exact hsummary

/-- A package with a test from outside of it, and a tool that is left out. -/
def testedFiles : List (String × FileContent) :=
  [("a.go", .text "package a\nimport (\n\t\"C\"\n\t\"c\"\n)\nimport \"b\""),
    ("a_test.go", .text "package a_test\nimport \"a.io\"\nimport \"t\""),
    ("b.txt", .binary [255]),
    ("tool.go", .text "//go:build ignore\n\npackage main")]

def testedTree : FileTree :=
  ⟨.ofList (testedFiles.map fun x => ([x.1], .file x.2))⟩

private theorem isFlat_testedTree : testedTree.IsFlat testedFiles :=
  FileTree.isFlat_of_isName (by decide +kernel) (by decide +kernel)

theorem isSummary_testedFiles :
    testedTree.filesIn ⟨"."⟩ = .ok testedFiles ∧
      (∀ x ∈ testedFiles, isSourceName x.1 = true → ∃ source, x.2 = .text source) ∧
      IsSummary (IsParsed testedFiles) "a.io" ⟨"a.io", "a", ["b", "c"], ["t"]⟩ := by
  have htext : ∀ x ∈ testedFiles, isSourceName x.1 = true → ∃ source, x.2 = .text source := by
    simp only [testedFiles, List.forall_mem_cons]
    exact ⟨fun _ => ⟨_, rfl⟩, fun _ => ⟨_, rfl⟩, fun h => absurd h (by decide +kernel),
      fun _ => ⟨_, rfl⟩, nofun⟩
  have hpackage : packageOf testedFiles "a.io" =
      .ok (some ⟨"a.io", "a", ["b", "c"], ["t"]⟩) := by decide +kernel
  have hfiles := isFlat_testedTree.filesIn
  have hanalyze : analyze testedTree ⟨"."⟩ "a.io" = packageOf testedFiles "a.io" := by
    rw [analyze, hfiles]
  exact ⟨hfiles, htext,
    ((analyze_summary "a.io" hfiles htext).2.2 _ (hanalyze.trans hpackage) _).mpr rfl⟩
end DepSolver.GoSource
