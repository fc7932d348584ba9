import DepSolver.Proofs.Search.Closure
import DepSolver.Proofs.Search.Justification
import DepSolver.Proofs.Source

/-!
Where the imports behind a solution lead. An import that is followed, within the root tree or within
a solved project, and one for which another project is looked up, leads to a package that parsed.
An import that is dropped before that may lead nowhere.
-/

namespace DepSolver.Search

variable {replies : Replies} {p : Parameters} {s s' : SearchState} {d : Demand}
  {root target : ProjectRoot} {version : Version} {imports : SortedSet String}
  {work more : List Demand} {x : Selection} {importer : Option ProjectRoot} {path : String}

/-- An import that calls for a package, neither ignored nor of the standard library. A package that
is reached in the root tree makes it, or one that is used of a selected project. -/
inductive IsMade (p : Parameters) (s : SearchState) : Option ProjectRoot → String → Prop
  | own {package path : String} {y : Package}
      (hreaches : p.rootTree.Reaches p.ignored true p.rootSeeds package)
      (hfound : p.rootTree.get? package = some (.package y))
      (hmem : path ∈ PackageTree.importsOf true y) (hkept : p.ignored.ignores path = false)
      (hstandard : ImportPath.isStandard path = false) : IsMade p s none path
  | used {root : ProjectRoot} {x : Selection} {package path : String} {y : Package}
      (hselected : s.selected.get? root = some x) (hused : package ∈ x.packages)
      (hfound : x.tree.get? package = some (.package y))
      (hmem : path ∈ PackageTree.importsOf false y) (hkept : p.ignored.ignores path = false)
      (hstandard : ImportPath.isStandard path = false) : IsMade p s (some root) path

/-- A package that parsed stands at an import path: in the root tree, or among the packages used of
the selected project that owns the path, be it the importer or the project that was looked up. -/
def IsProvided (replies : Replies) (p : Parameters) (s : SearchState)
    (importer : Option ProjectRoot) (path : String) : Prop :=
  p.rootTree.IsUsable path ∨
    ∃ root x, s.selected.get? root = some x ∧
      (importer = some root ∨ replies (.root path) (.ok root)) ∧
      path ∈ x.packages ∧ x.tree.IsUsable path

/-- An import that is dropped, whatever package there is: the importer's own tree does not follow
it, and it is left to the root tree or to a local project, or to the importer after all. -/
inductive IsDropped (replies : Replies) (p : Parameters) (s : SearchState) :
    Option ProjectRoot → String → Prop
  | own {path : String} (hleft : p.rootTree.follows path = false) (hhides : p.hides path = true) :
      IsDropped replies p s none path
  | used {root : ProjectRoot} {x : Selection} {path : String}
      (hselected : s.selected.get? root = some x) (hleft : x.tree.follows path = false)
      (hdropped : p.hides path = true ∨ replies (.root path) (.ok root)) :
      IsDropped replies p s (some root) path

/-- Every package that a state relies on parsed, in the tree that was answered for its version. -/
structure ReliesOnParsed (replies : Replies) (p : Parameters) (s : SearchState) : Prop where
  answered : s.IsAnswered replies
  reached : ∀ path,
    p.rootTree.Reaches p.ignored true p.rootSeeds path → p.rootTree.IsUsable path
  used : ∀ root x, s.selected.get? root = some x → ∀ path ∈ x.packages, x.tree.IsUsable path

/-! ### Imports that are looked up -/

/-- A package is needed of a project, or a demand for it waits. -/
def IsClaimed (s : SearchState) (work : List Demand) (target : ProjectRoot) (path : String) :
    Prop :=
  path ∈ s.needed target ∨ ∃ d ∈ work, d.target = target ∧ path ∈ d.packages

/-- No project is looked up for an import, or its importer owns it, or it is claimed of the project
that owns it. -/
def IsResolved (replies : Replies) (p : Parameters) (s : SearchState) (work : List Demand)
    (importer : Option ProjectRoot) (path : String) : Prop :=
  p.hides path = true ∨
    ∃ target, replies (.root path) (.ok target) ∧
      (importer = some target ∨ IsClaimed s work target path)

theorem IsClaimed.record (h : IsClaimed s (d :: work) target path) (more : List Demand) :
    IsClaimed (s.record d) (work ++ more) target path := by
  rcases h with hneeded | ⟨d', hmem, rfl, hpath⟩
  · exact .inl (SearchState.relates_record_required.mpr (.inl hneeded))
  · rcases List.mem_cons.mp hmem with rfl | hmem
    · exact .inl (SearchState.relates_record_required.mpr (.inr ⟨rfl, hpath⟩))
    · exact .inr ⟨d', List.mem_append_left _ hmem, rfl, hpath⟩

theorem IsResolved.imp (h : IsResolved replies p s work importer path)
    (hclaimed : ∀ target path, IsClaimed s work target path → IsClaimed s' more target path) :
    IsResolved replies p s' more importer path := by
  rcases h with hhides | ⟨target, hroot, hown | hclaim⟩
  · exact .inl hhides
  · exact .inr ⟨target, hroot, .inl hown⟩
  · exact .inr ⟨target, hroot, .inr (hclaimed target path hclaim)⟩

theorem IsWorkUnder.isResolved {imports : List String}
    (h : IsWorkUnder replies p importer imports more) (hpath : path ∈ imports) (s : SearchState)
    (work : List Demand) : IsResolved replies p s (work ++ more) importer path := by
  cases hhides : p.hides path with
  | true => exact .inl hhides
  | false =>
      rcases h.complete path hpath hhides with ⟨target, hown, hroot⟩ | ⟨d, hd, hroot, hmem⟩
      · exact .inr ⟨target, hroot, .inl hown⟩
      · exact .inr ⟨d.target, hroot, .inr (.inr ⟨d, List.mem_append_right _ hd, rfl, hmem⟩)⟩

theorem IsWorkUnder.ignores_eq_false {imports : List String}
    (h : IsWorkUnder replies p importer imports more) (hd : d ∈ more) (hpath : path ∈ d.packages) :
    p.ignored.ignores path = false := by
  have hhides := (h.sound d hd path hpath).2.1
  simp only [Parameters.hides, Bool.or_eq_false_iff] at hhides
  exact hhides.1.2

/-! ### The invariant -/

/-- The packages of a selection are those that are needed with what they import in its tree, all of
them parsed, and their other imports are resolved. -/
structure IsServedSelection (replies : Replies) (p : Parameters) (s : SearchState)
    (work : List Demand) (root : ProjectRoot) (x : Selection) : Prop where
  packages : ∀ path, path ∈ x.packages ↔ x.tree.Reaches p.ignored false (s.needed root) path
  usable : ∀ path ∈ x.packages, x.tree.IsUsable path
  resolved : ∀ path, x.tree.LeadsOut p.ignored false (s.needed root) path →
    IsResolved replies p s work (some root) path

structure IsServing (replies : Replies) (p : Parameters) (s : SearchState) (work : List Demand) :
    Prop where
  selection : ∀ root x, s.selected.get? root = some x →
    IsServedSelection replies p s work root x
  kept : ∀ target path, IsClaimed s work target path → p.ignored.ignores path = false
  own : ∀ path, p.RootImports path → IsResolved replies p s work none path

theorem IsServing.start (himports : ∀ path, path ∈ imports ↔ p.RootImports path)
    (hwork : IsWorkUnder replies p none imports.toList work) : IsServing replies p .empty work where
  selection _ _ hx := by cases hx
  kept target path hclaim := by
    rcases hclaim with hneeded | ⟨d, hd, -, hpath⟩
    · exact absurd hneeded (Table.not_relates_empty target path)
    · exact hwork.ignores_eq_false hd hpath
  own path himport := hwork.isResolved ((himports path).mpr himport) .empty []

theorem IsServedSelection.record (h : IsServedSelection replies p s (d :: work) root x)
    (hne : root ≠ d.target) (more : List Demand) :
    IsServedSelection replies p (s.record d) (work ++ more) root x := by
  have hneeded := SearchState.needed_record_of_ne (s := s) hne
  refine ⟨?_, h.usable, ?_⟩
  · rw [hneeded]
    exact h.packages
  · rw [hneeded]
    exact fun path hleads => (h.resolved path hleads).imp fun _ _ hclaim => hclaim.record more

theorem IsServedSelection.extend {reach : Reach}
    (h : IsServedSelection replies p s (d :: work) d.target x)
    (hreach : x.tree.reach (d.packages.diff x.packages).toList p.ignored false = .ok reach)
    (hmore : IsWorkUnder replies p (some d.target) reach.external.toList more) :
    IsServedSelection replies p (s.record d) (work ++ more) d.target
      { x with packages := x.packages.union reach.internal } := by
  refine ⟨fun _ => mem_union_internal_iff h.packages hreach,
    fun _ => isUsable_of_mem_union_internal h.usable hreach, ?_⟩
  rintro path ⟨package, y, hreaches, hfound, hmem, houtside⟩
  rcases (reaches_needed_record h.packages).mp hreaches with hold | hnew
  · exact (h.resolved path ⟨package, y, hold, hfound, hmem, houtside⟩).imp
      fun _ _ hclaim => hclaim.record more
  · have hexternal := ((PackageTree.isReach_of_reach_eq_ok hreach).mem_external path).mpr
      ⟨package, y, hnew, hfound, hmem, houtside⟩
    exact hmore.isResolved hexternal _ work

theorem IsServing.kept_record (h : IsServing replies p s (d :: work))
    (hmore : IsWorkUnder replies p importer imports.toList more)
    (hclaim : IsClaimed (s.record d) (work ++ more) target path) :
    p.ignored.ignores path = false := by
  rcases hclaim with hneeded | ⟨d', hd, hd'⟩
  · rcases SearchState.relates_record_required.mp hneeded with hold | ⟨rfl, hnew⟩
    · exact h.kept target path (.inl hold)
    · exact h.kept d.target path (.inr ⟨d, List.mem_cons_self, rfl, hnew⟩)
  · rcases List.mem_append.mp hd with hold | hnew
    · exact h.kept target path (.inr ⟨d', List.mem_cons_of_mem _ hold, hd'⟩)
    · exact hmore.ignores_eq_false hnew hd'.2

theorem IsServing.meet (h : IsServing replies p s (d :: work))
    (hmeet : s.meet p d = .ok (s', imports))
    (hmore : IsWorkUnder replies p (some d.target) imports.toList more) :
    IsServing replies p s' (work ++ more) := by
  have hown : ∀ path, p.RootImports path →
      IsResolved replies p (s.record d) (work ++ more) none path := fun path himport =>
    (h.own path himport).imp fun _ _ hclaim => hclaim.record more
  rcases SearchState.meet_eq_ok hmeet with ⟨hnone, rfl, -⟩ | ⟨x, hx, -, reach, hreach, rfl, rfl⟩
  · refine ⟨?_, fun _ _ => h.kept_record hmore, hown⟩
    intro root x hx
    refine (h.selection root x hx).record ?_ more
    rintro rfl
    rw [SearchState.record_selected, hnone] at hx
    cases hx
  · refine ⟨?_, fun _ _ => h.kept_record hmore, hown⟩
    intro root y hy
    rw [SearchState.get?_put] at hy
    split at hy
    · rename_i heq
      subst heq
      cases hy
      have hextend := (h.selection d.target x hx).extend hreach hmore
      exact ⟨hextend.packages, hextend.usable, hextend.resolved⟩
    · rename_i hne
      have hrecord := (h.selection root y hy).record hne more
      exact ⟨hrecord.packages, hrecord.usable, hrecord.resolved⟩

theorem IsServing.select {tree : PackageTree} {manifest : Manifest} (h : IsServing replies p s [])
    (hselect : s.select p root version tree manifest = .ok (s', imports))
    (hwork : IsWorkUnder replies p (some root) imports.toList work) :
    IsServing replies p s' work := by
  obtain ⟨reach, hreach, rfl, rfl⟩ := SearchState.select_eq_ok hselect
  have hspec := PackageTree.isReach_of_reach_eq_ok hreach
  rw [SearchState.setOf_mem_required] at hspec
  have hkeeps : ∀ target path, IsClaimed s [] target path → IsClaimed s work target path :=
    fun _ _ hclaim => .inl (hclaim.resolve_right (by simp))
  refine ⟨?_, ?_, fun path himport => (h.own path himport).imp hkeeps⟩
  · intro root' x hx
    rw [SearchState.get?_put] at hx
    split at hx
    · rename_i heq
      subst heq
      cases hx
      refine ⟨hspec.mem_internal, ?_, ?_⟩
      · exact fun path hpath => hspec.usable path ((hspec.mem_internal path).mp hpath)
      · exact fun path hleads => hwork.isResolved ((hspec.mem_external path).mpr hleads) _ []
    · have hold := h.selection root' x hx
      exact ⟨hold.packages, hold.usable, fun path hleads => (hold.resolved path hleads).imp hkeeps⟩
  · rintro target path (hneeded | ⟨d, hd, -, hpath⟩)
    · exact h.kept target path (.inl hneeded)
    · exact hwork.ignores_eq_false hd hpath

theorem Occurs.isServing (h : Occurs replies p s work) : IsServing replies p s work := by
  induction h with
  | start himports hwork => exact .start himports hwork
  | meet _ hmeet hmore ih => exact ih.meet hmeet hmore
  | select _ _ _ _ _ _ hselect hwork ih => exact ih.select hselect hwork

/-! ### Imports that lead to a package -/

theorem IsServing.exists_usable (h : IsServing replies p s []) (hdone : s.pending = [])
    (hclaim : IsClaimed s [] target path) :
    ∃ x, s.selected.get? target = some x ∧ path ∈ x.packages ∧ x.tree.IsUsable path := by
  have hneeded := hclaim.resolve_right (by simp)
  obtain ⟨x, hx⟩ := SearchState.exists_selected_of_pending_eq_nil hdone
    (Table.mem_keys_of_relates hneeded)
  have hselection := h.selection target x hx
  have hused := (hselection.packages path).mpr (.seed hneeded (h.kept target path hclaim))
  exact ⟨x, hx, hused, hselection.usable path hused⟩

theorem IsServing.isProvided_or_isDropped (h : IsServing replies p s []) (hdone : s.pending = [])
    (husable : ∀ path,
      p.rootTree.Reaches p.ignored true p.rootSeeds path → p.rootTree.IsUsable path)
    (hmade : IsMade p s importer path) :
    IsProvided replies p s importer path ∨ IsDropped replies p s importer path := by
  cases hmade with
  | @own package path y hreaches hfound hmem hkept hstandard =>
      cases hfollows : p.rootTree.follows path with
      | true => exact .inl (.inl (husable path (.step hreaches hfound hmem ⟨hkept, hfollows⟩)))
      | false =>
          have himport : p.RootImports path :=
            .inl ⟨package, y, hreaches, hfound, hmem, hkept, hfollows, hstandard⟩
          rcases h.own path himport with hhides | ⟨target, hroot, hown | hclaim⟩
          · exact .inr (.own hfollows hhides)
          · cases hown
          · obtain ⟨x, hx, hused⟩ := h.exists_usable hdone hclaim
            exact .inl (.inr ⟨target, x, hx, .inr hroot, hused⟩)
  | @used root x package path y hselected hused hfound hmem hkept hstandard =>
      have hselection := h.selection root x hselected
      have hreaches := (hselection.packages package).mp hused
      cases hfollows : x.tree.follows path with
      | true =>
          have hpath := (hselection.packages path).mpr
            (.step hreaches hfound hmem ⟨hkept, hfollows⟩)
          exact .inl (.inr ⟨root, x, hselected, .inl rfl, hpath, hselection.usable path hpath⟩)
      | false =>
          have himport : x.tree.LeadsOut p.ignored false (s.needed root) path :=
            ⟨package, y, hreaches, hfound, hmem, hkept, hfollows, hstandard⟩
          rcases hselection.resolved path himport with hhides | ⟨target, hroot, hown | hclaim⟩
          · exact .inr (.used hselected hfollows (.inl hhides))
          · cases hown
            exact .inr (.used hselected hfollows (.inr hroot))
          · obtain ⟨y, hy, hused⟩ := h.exists_usable hdone hclaim
            exact .inl (.inr ⟨target, y, hy, .inr hroot, hused⟩)

/-- A solution relies on packages that parsed, and an import that they make leads to one more,
unless it is dropped. The source is arbitrary, and may change its answers during the search. -/
theorem reliesOnParsed_of_yields {t : List Exchange} {limit : Nat} {solution : Solution}
    (h : (solve p limit).Yields t (.ok solution)) :
    ∃ s attempts, solution = s.toSolution p attempts ∧ ReliesOnParsed (.ofTranscript t) p s ∧
      ∀ importer path, IsMade p s importer path →
        IsProvided (.ofTranscript t) p s importer path ∨
          IsDropped (.ofTranscript t) p s importer path := by
  obtain ⟨husable, s, attempts, hoccurs, hdone, hsolution⟩ := isResult_of_yields h
  have hserving := hoccurs.isServing
  refine ⟨s, attempts, hsolution, ⟨hoccurs.isAnswered, husable, ?_⟩, ?_⟩
  · exact fun root x hx => (hserving.selection root x hx).usable
  · exact fun importer path => hserving.isProvided_or_isDropped hdone husable

theorem chain_reliesOnParsed :
    ∃ t, (solve (chainParameters ⟨"a.io"⟩ "main") 2).Yields t (.ok chainSolution) ∧
      ∃ s attempts, chainSolution = s.toSolution (chainParameters ⟨"a.io"⟩ "main") attempts ∧
        ReliesOnParsed (.ofTranscript t) (chainParameters ⟨"a.io"⟩ "main") s ∧
        ∀ importer path, IsMade (chainParameters ⟨"a.io"⟩ "main") s importer path →
          IsProvided (.ofTranscript t) (chainParameters ⟨"a.io"⟩ "main") s importer path ∨
            IsDropped (.ofTranscript t) (chainParameters ⟨"a.io"⟩ "main") s importer path := by
  obtain ⟨t, hyields, -⟩ :=
    (solve (chainParameters ⟨"a.io"⟩ "main") 2).exists_yields_run chainSource
  have hrun : (solve (chainParameters ⟨"a.io"⟩ "main") 2).run chainSource = .ok chainSolution := by
    decide +kernel
  rw [hrun] at hyields
  exact ⟨t, hyields, reliesOnParsed_of_yields hyields⟩

/-! ### A broken package that a dependency imports -/

/-- A project with a broken package, which nothing of its own imports. -/
def brokenCornerTree : PackageTree :=
  (MemorySource.singlePackageTree ⟨"root.io"⟩ ["a.io"]).insertBroken "root.io/broken" "syntax error"

/-- The inputs of that project alone. -/
def brokenCornerParameters : Parameters :=
  .ofTree brokenCornerTree (.ofManifest "root.io" .empty)

/-- A source of one project, which imports the broken package. -/
def brokenCornerSource : MemorySource :=
  MemorySource.empty.addRelease ⟨"a.io"⟩
    ⟨.branch "main" none, MemorySource.singlePackageTree ⟨"a.io"⟩ ["root.io/broken"], .empty⟩

def brokenCornerSolution : Solution where
  projects := .ofList [(⟨"a.io"⟩, .ofPackages ⟨"a.io"⟩ (.branch "main" none) ["."])]
  imports := .ofList [(none, .ofList [⟨"a.io"⟩])]
  inputsDigest := brokenCornerParameters.inputsDigest
  attempts := 1

private theorem run_solve_brokenCorner :
    (solve brokenCornerParameters 1).run brokenCornerSource.answer = .ok brokenCornerSolution := by
  decide +kernel

private theorem tree_eq_of_brokenCornerSource {tree : PackageTree}
    (h : Replies.ofSource brokenCornerSource.answer (.tree root version) (.ok tree)) :
    tree = MemorySource.singlePackageTree ⟨"a.io"⟩ ["root.io/broken"] := by
  obtain ⟨r, hr, rfl⟩ := MemorySource.treeAt_answer_eq_ok.mp h.symm
  obtain ⟨releases, hreleases, hmem, -⟩ := MemorySource.mem_releases_of_release hr
  have hprojects := MemorySource.get?_projects_of_releases hreleases
  rw [brokenCornerSource, MemorySource.addRelease, Table.get?_insert] at hprojects
  split at hprojects
  · cases hprojects
    rw [List.mem_singleton.mp hmem]
  · cases hprojects

/-- The import of a broken package of the root tree leads nowhere, and the search does not fail. -/
theorem not_isProvided_of_run_solve :
    ¬ ∀ (source : VersionSource) (p : Parameters) (limit : Nat) (solution : Solution),
      (solve p limit).run source = .ok solution →
        ∃ s attempts, solution = s.toSolution p attempts ∧ ReliesOnParsed (.ofSource source) p s ∧
          ∀ importer path, IsMade p s importer path →
            IsProvided (.ofSource source) p s importer path := by
  intro h
  obtain ⟨s, attempts, hsolution, hrelies, hprovided⟩ := h _ _ 1 _ run_solve_brokenCorner
  have hproject := @SearchState.project?_toSolution s brokenCornerParameters attempts ⟨"a.io"⟩
  rw [← hsolution] at hproject
  obtain ⟨x, hx, hlocked⟩ := Option.map_eq_some_iff.mp hproject.symm
  have htree := tree_eq_of_brokenCornerSource (hrelies.answered.selected _ x hx).1
  have hlisted : "." ∈ x.packages.toList.filterMap (ProjectRoot.relative ⟨"a.io"⟩) := by
    have hpackages : (SortedSet.ofList
        (x.packages.toList.filterMap (ProjectRoot.relative ⟨"a.io"⟩))).toList = ["."] :=
      congrArg LockedProject.packages hlocked
    rw [← SortedSet.mem_ofList, ← SortedSet.mem_toList, hpackages]
    exact List.mem_singleton_self "."
  obtain ⟨package, hused, -⟩ := List.mem_filterMap.mp hlisted
  obtain ⟨y, hy⟩ := hrelies.used _ x hx package hused
  have hmade : IsMade brokenCornerParameters s (some ⟨"a.io"⟩) "root.io/broken" := by
    refine .used hx hused hy ?_ (by decide +kernel) (by decide +kernel)
    rw [htree, PackageTree.get?, MemorySource.singlePackageTree, PackageTree.insertPackage,
      Table.get?_insert] at hy
    split at hy
    · cases hy
      decide +kernel
    · cases hy
  rcases hprovided _ _ hmade with ⟨z, hz⟩ | ⟨root, x', hx', -, -, z, hz⟩
  · cases hz
  · rw [tree_eq_of_brokenCornerSource (hrelies.answered.selected root x' hx').1] at hz
    cases hz

end DepSolver.Search
