import DepSolver.GoSource.Directory
import DepSolver.Proofs.Except
import DepSolver.Proofs.SortedSet
import DepSolver.Proofs.Text

/-!
The package of a directory as a summary of the files whose headers were read. They are taken in one
after another, but only the name that external tests alone give to a package depends on their order.
-/

namespace DepSolver.GoSource

structure ParsedFile where
  name : String
  header : Header

namespace ParsedFile

def isTest (f : ParsedFile) : Bool := Text.endsWith "_test.go" f.name

/-- The file tests a package from outside of it. -/
def Tests (f : ParsedFile) (packageName : String) : Prop :=
  f.isTest = true ∧ f.header.packageName = packageName ++ "_test"

def IsExternalTest (f : ParsedFile) : Prop := ∃ packageName, f.Tests packageName

def tested? (f : ParsedFile) : Option String :=
  if f.isTest then (Text.dropEnding? "_test".toList f.header.packageName.toList).map .ofList
  else none

theorem tested?_eq_some_iff {f : ParsedFile} {packageName : String} :
    f.tested? = some packageName ↔ f.Tests packageName := by
  rw [tested?, Tests]
  split
  · rename_i htest
    simp only [htest, true_and, Option.map_eq_some_iff, Text.dropEnding?_eq_some_iff]
    constructor
    · rintro ⟨base, hbase, rfl⟩
      rw [← String.toList_inj, hbase]
      simp
    · intro hname
      exact ⟨packageName.toList, by simp [hname], String.ofList_toList⟩
  · rename_i htest
    simp [htest]

theorem isSome_tested?_iff {f : ParsedFile} : f.tested?.isSome = true ↔ f.IsExternalTest := by
  rw [Option.isSome_iff_exists]
  exact exists_congr fun _ => tested?_eq_some_iff

instance : DecidablePred IsExternalTest := fun _ => decidable_of_iff _ isSome_tested?_iff

end ParsedFile

/-- The files that belong to the package of the directory have one name for it. -/
def Agree (l : List ParsedFile) : Prop :=
  ∃ name, ∀ f ∈ l, ¬ f.IsExternalTest → f.header.packageName = name

theorem agree_nil : Agree [] := ⟨"", nofun⟩

theorem Agree.subset {l l' : List ParsedFile} (h : Agree l) (hsub : l' ⊆ l) : Agree l' :=
  h.imp fun _ hname f hf => hname f (hsub hf)

theorem Agree.exists_find? {l : List ParsedFile} {f : ParsedFile} (h : Agree l) (hf : f ∈ l)
    (hnot : ¬ f.IsExternalTest) :
    ∃ g, l.find? (¬ ·.IsExternalTest) = some g ∧ g.header.packageName = f.header.packageName := by
  obtain ⟨name, hname⟩ := h
  cases hfirst : l.find? (¬ ·.IsExternalTest) with
  | none => exact absurd (List.find?_eq_none.mp hfirst f hf) (by simpa using hnot)
  | some g =>
      have hg := hname g (List.mem_of_find?_eq_some hfirst) (by simpa using List.find?_some hfirst)
      exact ⟨g, rfl, hg.trans (hname f hf hnot).symm⟩

theorem agree_append_iff {l : List ParsedFile} {f : ParsedFile} (h : Agree l) :
    Agree (l ++ [f]) ↔ f.IsExternalTest ∨
      ∀ g ∈ l.find? (¬ ·.IsExternalTest), g.header.packageName = f.header.packageName := by
  constructor
  · rintro ⟨name, hname⟩
    rw [or_iff_not_imp_left]
    intro hf g hg
    rw [hname g (by simp [List.mem_of_find?_eq_some hg]) (by simpa using List.find?_some hg),
      hname f (by simp) hf]
  · rintro (hf | hf)
    · obtain ⟨name, hname⟩ := h
      refine ⟨name, fun g hg hnot => ?_⟩
      rcases List.mem_append.mp hg with hg | hg
      · exact hname g hg hnot
      · exact absurd (List.mem_singleton.mp hg ▸ hf) hnot
    · refine ⟨f.header.packageName, fun g hg hnot => ?_⟩
      rcases List.mem_append.mp hg with hg | hg
      · obtain ⟨first, hfirst, hname⟩ := h.exists_find? hg hnot
        exact hname.symm.trans (hf first hfirst)
      · rw [List.mem_singleton.mp hg]

namespace Summary

/-- What some files say, if they agree. -/
def ofFiles (l : List ParsedFile) : Summary where
  name := (l.find? (¬ ·.IsExternalTest)).map fun f => (f.header.packageName, f.name)
  testName := (l.find? (·.isTest)).map fun f => f.tested?.getD f.header.packageName
  imports := .ofList ((l.filter (!·.isTest)).flatMap (·.header.imports))
  testImports := .ofList ((l.filter (·.isTest)).flatMap (·.header.imports))

theorem addName_eq_ok_iff {s s' : Summary} {fileName packageName : String} :
    s.addName fileName packageName = .ok s' ↔ (∀ x ∈ s.name, x.1 = packageName) ∧
      s' = { s with name := s.name.or (some (packageName, fileName)) } := by
  rw [addName]
  cases hname : s.name with
  | none => simp [eq_comm]
  | some x =>
    by_cases heq : x.1 = packageName
    · have hs : { s with name := some x } = s := by rw [← hname]
      simp [heq, hs, eq_comm]
    · simp [heq]

/-- Take in what a file says, but for the name of its own package. -/
def addOthers (s : Summary) (f : ParsedFile) : Summary where
  name := s.name
  testName := s.testName.or (if f.isTest then some (f.tested?.getD f.header.packageName) else none)
  imports := if f.isTest then s.imports else s.imports.insertAll f.header.imports
  testImports := if f.isTest then s.testImports.insertAll f.header.imports else s.testImports

private theorem addHeader_eq (s : Summary) (f : ParsedFile) : s.addHeader f.name f.header =
    if f.IsExternalTest then .ok (s.addOthers f)
    else (s.addOthers f).addName f.name f.header.packageName := by
  have htested := @ParsedFile.isSome_tested?_iff f
  rw [addHeader, addOthers, ← ParsedFile.isTest]
  rw [ParsedFile.tested?] at htested ⊢
  generalize "_test".toList = ending at htested ⊢
  cases htest : f.isTest with
  | false =>
      have hnot : ¬ f.IsExternalTest := by simpa [htest] using htested
      simp [hnot]
  | true =>
      cases hname : Text.dropEnding? ending f.header.packageName.toList with
      | some tested =>
          have hext : f.IsExternalTest := htested.mp (by simp [htest, hname])
          simp [hext]
      | none =>
          have hnot : ¬ f.IsExternalTest := by simpa [htest, hname] using htested
          simp [hnot]

private theorem ofFiles_append (l : List ParsedFile) (f : ParsedFile) : ofFiles (l ++ [f]) =
    { (ofFiles l).addOthers f with
      name := (ofFiles l).name.or
        (if f.IsExternalTest then none else some (f.header.packageName, f.name)) } := by
  by_cases hext : f.IsExternalTest <;> cases htest : f.isTest <;>
    simp [ofFiles, addOthers, hext, htest, List.find?_append, SortedSet.ofList_append]

theorem addHeader_ofFiles_iff {l : List ParsedFile} (f : ParsedFile) {s : Summary} (h : Agree l) :
    (ofFiles l).addHeader f.name f.header = .ok s ↔
      Agree (l ++ [f]) ∧ s = ofFiles (l ++ [f]) := by
  rw [agree_append_iff h, addHeader_eq, ofFiles_append]
  by_cases hext : f.IsExternalTest
  · simp only [hext, addOthers, if_true, true_or, true_and, Option.or_none, Except.ok.injEq]
    exact eq_comm
  · rw [if_neg hext, if_neg hext, addName_eq_ok_iff, or_iff_right hext]
    simp [addOthers, ofFiles]

theorem foldlM_addHeader_iff {done l : List ParsedFile} {s : Summary} (h : Agree done) :
    l.foldlM (fun s f => s.addHeader f.name f.header) (ofFiles done) = .ok s ↔
      Agree (done ++ l) ∧ s = ofFiles (done ++ l) := by
  induction l generalizing done with
  | nil => simp [h, pure, Except.pure, eq_comm]
  | cons f l ih =>
      have hsplit : done ++ f :: l = (done ++ [f]) ++ l := by simp
      rw [List.foldlM_cons, hsplit]
      constructor
      · intro hfold
        obtain ⟨s', hstep, hrest⟩ := exists_of_bind_eq_ok hfold
        obtain ⟨hagree, rfl⟩ := (addHeader_ofFiles_iff f h).mp hstep
        exact (ih hagree).mp hrest
      · rintro ⟨hall, rfl⟩
        have hagree : Agree (done ++ [f]) := hall.subset (List.subset_append_left ..)
        rw [(addHeader_ofFiles_iff f h).mpr ⟨hagree, rfl⟩]
        exact (ih hagree).mpr ⟨hall, rfl⟩

theorem package?_ofFiles_eq_none_iff {l : List ParsedFile} {importPath : String} :
    (ofFiles l).package? importPath = none ↔ l = [] := by
  rw [package?, Option.map_eq_none_iff, Option.or_eq_none_iff]
  constructor
  · rintro ⟨hname, htest⟩
    have hexternal : ∀ f ∈ l, f.IsExternalTest := by simpa [ofFiles] using hname
    have hnot : ∀ f ∈ l, f.isTest = false := by simpa [ofFiles] using htest
    refine List.eq_nil_iff_forall_not_mem.mpr fun f hf => ?_
    obtain ⟨_, htest, -⟩ := hexternal f hf
    rw [hnot f hf] at htest
    cases htest
  · rintro rfl
    exact ⟨rfl, rfl⟩

end Summary

/-- A package as the summary of some files. -/
structure IsSummary (parsed : ParsedFile → Prop) (importPath : String) (package : Package) :
    Prop where
  importPath_eq : package.importPath = importPath
  /-- The files that belong to the package of the directory give it its name. -/
  name_eq : ∀ f, parsed f → ¬ f.IsExternalTest → f.header.packageName = package.name
  /-- If there is no such file, the first of all tests the package. -/
  tests : (∀ f, parsed f → f.IsExternalTest) →
    ∃ f, parsed f ∧ f.Tests package.name ∧ ∀ g, parsed g → g = f ∨ compare f.name g.name = .lt
  imports_sorted : package.imports.Pairwise fun a b => compare a b = .lt
  mem_imports : ∀ path, path ∈ package.imports ↔
    path ≠ "C" ∧ ∃ f, parsed f ∧ f.isTest = false ∧ path ∈ f.header.imports
  testImports_sorted : package.testImports.Pairwise fun a b => compare a b = .lt
  mem_testImports : ∀ path, path ∈ package.testImports ↔
    path ≠ "C" ∧ path ≠ importPath ∧ ∃ f, parsed f ∧ f.isTest = true ∧ path ∈ f.header.imports

theorem Summary.name_ofFiles {l : List ParsedFile} {f : ParsedFile} (hagree : Agree l)
    (hf : f ∈ l) (hnot : ¬ f.IsExternalTest) :
    (ofFiles l).name.map (·.1) = some f.header.packageName := by
  obtain ⟨g, hfirst, hname⟩ := hagree.exists_find? hf hnot
  rw [ofFiles, hfirst, ← hname]
  rfl

theorem Summary.name_ofFiles_of_forall {l : List ParsedFile} (h : ∀ f ∈ l, f.IsExternalTest) :
    (ofFiles l).name = none := by
  rw [ofFiles, Option.map_eq_none_iff, List.find?_eq_none]
  simpa using h

theorem Summary.tests_of_testName_ofFiles {f : ParsedFile} {l : List ParsedFile} {name : String}
    (h : f.IsExternalTest) (hname : (ofFiles (f :: l)).testName = some name) : f.Tests name := by
  obtain ⟨tested, htested⟩ := h
  have hsome : f.tested? = some tested := ParsedFile.tested?_eq_some_iff.mpr htested
  rw [ofFiles, List.find?_cons_of_pos htested.1, Option.map_some, hsome] at hname
  cases hname
  exact htested

theorem Summary.isSummary_ofFiles {l : List ParsedFile} {importPath : String} {package : Package}
    (hagree : Agree l) (hsorted : l.Pairwise fun f g => compare f.name g.name = .lt)
    (h : (ofFiles l).package? importPath = some package) :
    IsSummary (· ∈ l) importPath package := by
  obtain ⟨name, hname, rfl⟩ := Option.map_eq_some_iff.mp h
  refine ⟨rfl, fun f hf hnot => ?_, fun hall => ?_, SortedSet.sorted _, fun path => ?_,
    SortedSet.sorted _, fun path => ?_⟩
  · rw [Summary.name_ofFiles hagree hf hnot] at hname
    exact Option.some_inj.mp hname
  · rw [Summary.name_ofFiles_of_forall hall] at hname
    cases l with
    | nil => cases hname
    | cons f l =>
        refine ⟨f, by simp, Summary.tests_of_testName_ofFiles (hall f (by simp)) hname, ?_⟩
        intro g hg
        exact (List.mem_cons.mp hg).imp_right ((List.pairwise_cons.mp hsorted).1 g)
  · rw [SortedSet.mem_toList, SortedSet.mem_erase, ofFiles]
    simp [and_assoc]
  · rw [SortedSet.mem_toList, SortedSet.mem_erase, SortedSet.mem_erase, ofFiles]
    simp [and_assoc]
    tauto

theorem IsSummary.eq {parsed : ParsedFile → Prop} {importPath : String} {package other : Package}
    (h : IsSummary parsed importPath package) (h' : IsSummary parsed importPath other) :
    package = other := by
  have hname : package.name = other.name := by
    by_cases hall : ∀ f, parsed f → f.IsExternalTest
    · obtain ⟨f, hf, htests, hfirst⟩ := h.tests hall
      obtain ⟨g, hg, htests', hfirst'⟩ := h'.tests hall
      have heq : g = f := by
        rcases hfirst g hg, hfirst' f hf with ⟨heq | hlt, heq' | hlt'⟩
        · exact heq
        · exact heq
        · exact heq'.symm
        · exact absurd hlt' (Std.OrientedCmp.not_lt_of_lt hlt)
      subst heq
      have happend := congrArg String.toList (htests.2.symm.trans htests'.2)
      rw [String.toList_append, String.toList_append, List.append_cancel_right_eq] at happend
      exact String.toList_inj.mp happend
    · push Not at hall
      obtain ⟨f, hf, hnot⟩ := hall
      rw [← h.name_eq f hf hnot, h'.name_eq f hf hnot]
  have himports : package.imports = other.imports :=
    Sorting.eq_of_mem_iff h.imports_sorted h'.imports_sorted fun path => by
      rw [h.mem_imports, h'.mem_imports]
  have htestImports : package.testImports = other.testImports :=
    Sorting.eq_of_mem_iff h.testImports_sorted h'.testImports_sorted fun path => by
      rw [h.mem_testImports, h'.mem_testImports]
  have hpath := h.importPath_eq.trans h'.importPath_eq.symm
  cases package
  cases other
  simp_all

end DepSolver.GoSource
