import DepSolver.Proofs.PackageTree.Reach
import DepSolver.Proofs.Relation
import DepSolver.Proofs.Search.Outcome

/-!
What a choice of versions demands: the imports that lead out of the project that is solved, and with
every package that is demanded the imports that it leads to. A search asks for the projects of just
these imports.
-/

namespace DepSolver

namespace VersionSource

def versionsOf (source : VersionSource) (root : ProjectRoot) : Except SourceError (List Version) :=
  source (.versions root)

def treeAt (source : VersionSource) (root : ProjectRoot) (version : Version) :
    Except SourceError PackageTree :=
  source (.tree root version)

def manifestAt (source : VersionSource) (root : ProjectRoot) (version : Version) :
    Except SourceError Manifest :=
  source (.manifest root version)

def rootOf (source : VersionSource) (path : String) : Except SourceError ProjectRoot :=
  source (.root path)

end VersionSource

/-- A choice of versions for projects. -/
abbrev Assignment : Type := ProjectRoot → Option Version

namespace Parameters

/-- An import for which a project is looked up and that does not lead back to its importer. -/
def LooksUp (p : Parameters) (source : VersionSource) (importer : Option ProjectRoot)
    (path : String) : Prop :=
  p.hides path = false ∧ ∀ root, importer = some root → source.rootOf path ≠ .ok root

/-- The packages of the root tree from which its imports are followed. -/
def rootSeeds (p : Parameters) : Set String :=
  {seed | seed ∈ p.ownSeeds ∨
    (seed ∈ p.required ∧ p.ignored.ignores seed = false ∧ p.rootTree.contains seed = true)}

/-- An import that leads out of the root tree, or a required path outside of it. -/
def RootImports (p : Parameters) (path : String) : Prop :=
  p.rootTree.LeadsOut p.ignored true p.rootSeeds path ∨
    (path ∈ p.required ∧ p.ignored.ignores path = false ∧ p.rootTree.contains path = false)

end Parameters

/-- The imports that a choice of versions demands, each with its importer. -/
inductive Demanded (source : VersionSource) (p : Parameters) (σ : Assignment) :
    Option ProjectRoot → String → Prop
  | own {path : String} (himport : p.RootImports path) (hlook : p.LooksUp source none path) :
      Demanded source p σ none path
  | imported {importer : Option ProjectRoot} {seed path : String} {root : ProjectRoot}
      {version : Version} {tree : PackageTree} (hseed : Demanded source p σ importer seed)
      (hroot : source.rootOf seed = .ok root) (hversion : σ root = some version)
      (htree : source.treeAt root version = .ok tree)
      (himport : tree.LeadsOut p.ignored false {seed} path)
      (hlook : p.LooksUp source (some root) path) : Demanded source p σ (some root) path

def DemandedOf (source : VersionSource) (p : Parameters) (σ : Assignment) (root : ProjectRoot) :
    Set String :=
  {path | ∃ importer, Demanded source p σ importer path ∧ source.rootOf path = .ok root}

variable {source : VersionSource} {p : Parameters} {σ τ : Assignment}

theorem Demanded.looksUp {importer : Option ProjectRoot} {path : String}
    (h : Demanded source p σ importer path) : p.LooksUp source importer path := by
  cases h with
  | own _ hlook => exact hlook
  | imported _ _ _ _ _ hlook => exact hlook

theorem Parameters.LooksUp.ignores_eq_false {importer : Option ProjectRoot} {path : String}
    (h : p.LooksUp source importer path) : p.ignored.ignores path = false := by
  have hhides := h.1
  simp only [Parameters.hides, Bool.or_eq_false_iff] at hhides
  exact hhides.1.2

theorem Demanded.of_treeAt
    (htrees : ∀ root version tree, σ root = some version → source.treeAt root version = .ok tree →
      ∃ other, τ root = some other ∧ source.treeAt root other = .ok tree)
    {importer : Option ProjectRoot} {path : String} (h : Demanded source p σ importer path) :
    Demanded source p τ importer path := by
  induction h with
  | own himport hlook => exact .own himport hlook
  | imported _ hroot hversion htree himport hlook ih =>
      obtain ⟨other, hother, hsame⟩ := htrees _ _ _ hversion htree
      exact .imported ih hroot hother hsame himport hlook

theorem Demanded.mono (hsub : ∀ root version, σ root = some version → τ root = some version)
    {importer : Option ProjectRoot} {path : String} (h : Demanded source p σ importer path) :
    Demanded source p τ importer path :=
  h.of_treeAt fun root version _ hversion htree => ⟨version, hsub root version hversion, htree⟩

theorem DemandedOf.mono (hsub : ∀ root version, σ root = some version → τ root = some version)
    (root : ProjectRoot) : DemandedOf source p σ root ⊆ DemandedOf source p τ root := by
  rintro path ⟨importer, hdemanded, hroot⟩
  exact ⟨importer, hdemanded.mono hsub, hroot⟩

theorem Demanded.of_leadsOut {root : ProjectRoot} {version : Version} {tree : PackageTree}
    {seeds : Set String} {path : String} (hseeds : seeds ⊆ DemandedOf source p σ root)
    (hversion : σ root = some version) (htree : source.treeAt root version = .ok tree)
    (himport : tree.LeadsOut p.ignored false seeds path)
    (hlook : p.LooksUp source (some root) path) : Demanded source p σ (some root) path := by
  obtain ⟨seed, hseed, hleads⟩ := PackageTree.leadsOut_iff_exists_seed.mp himport
  obtain ⟨importer, hdemanded, hroot⟩ := hseeds hseed
  exact .imported hdemanded hroot hversion htree hleads hlook

/-! ### The same inputs -/

/-- Inputs that differ at most in the lock and in what it counts for. -/
def Parameters.SameInputs (p q : Parameters) : Prop :=
  ∃ lock toChange changeAll, q = { p with lock, toChange, changeAll }

section SameInputs

variable {q : Parameters}

theorem Parameters.SameInputs.symm (h : p.SameInputs q) : q.SameInputs p := by
  obtain ⟨lock, toChange, changeAll, rfl⟩ := h
  exact ⟨p.lock, p.toChange, p.changeAll, rfl⟩

theorem Demanded.of_sameInputs (hinputs : p.SameInputs q) {importer : Option ProjectRoot}
    {path : String} (h : Demanded source p σ importer path) :
    Demanded source q σ importer path := by
  obtain ⟨lock, toChange, changeAll, rfl⟩ := hinputs
  induction h with
  | own himport hlook => exact .own himport hlook
  | imported _ hroot hversion htree himport hlook ih =>
      exact .imported ih hroot hversion htree himport hlook

theorem Parameters.SameInputs.demanded_iff (h : p.SameInputs q) {importer : Option ProjectRoot}
    {path : String} : Demanded source q σ importer path ↔ Demanded source p σ importer path :=
  ⟨fun hdemanded => hdemanded.of_sameInputs h.symm, fun hdemanded => hdemanded.of_sameInputs h⟩

theorem Parameters.SameInputs.demandedOf_eq (h : p.SameInputs q) (root : ProjectRoot) :
    DemandedOf source q σ root = DemandedOf source p σ root := by
  ext path
  simp only [DemandedOf, Set.mem_ofPred_eq, h.demanded_iff]

end SameInputs

namespace Search

/-! ### Sorting imports by projects -/

/-- The demands of an importer for some imports: every import that is looked up stands in the demand
on its project. -/
structure IsWorkOf (source : VersionSource) (p : Parameters) (importer : Option ProjectRoot)
    (imports : List String) (work : List Demand) : Prop where
  importer_eq : ∀ d ∈ work, d.importer = importer
  nonempty : ∀ d ∈ work, ∃ path, path ∈ d.packages
  sound : ∀ d ∈ work, ∀ path ∈ d.packages,
    path ∈ imports ∧ p.LooksUp source importer path ∧ source.rootOf path = .ok d.target
  complete : ∀ path ∈ imports, p.LooksUp source importer path →
    ∃ d ∈ work, source.rootOf path = .ok d.target ∧ path ∈ d.packages
  length_le : work.length ≤ imports.length

/-- The imports in a table, added to those that were in another one. -/
structure IsGroupingOf (source : VersionSource) (p : Parameters) (importer : Option ProjectRoot)
    (imports : List String) (before after : Table ProjectRoot (SortedSet String)) : Prop where
  relates_iff : ∀ root path, after.Relates root path ↔ before.Relates root path ∨
    (path ∈ imports ∧ p.LooksUp source importer path ∧ source.rootOf path = .ok root)
  resolved : ∀ path ∈ imports, p.LooksUp source importer path →
    ∃ root, source.rootOf path = .ok root
  isProper : before.IsProper → after.IsProper
  size_le : after.size ≤ before.size + imports.length

theorem outcome_rootOf (path : String) (r : SearchRecord) :
    outcome source (rootOf path) r =
      match source.rootOf path with
      | .ok root => .ok (root, r)
      | .error e => .error (.source e) := by
  rw [rootOf, outcome_bind, outcome_ask, VersionSource.rootOf]
  cases source (.root path) <;> rfl

theorem IsGroupingOf.cons_of_not_looksUp {importer : Option ProjectRoot} {path : String}
    {rest : List String} {before after : Table ProjectRoot (SortedSet String)}
    (h : IsGroupingOf source p importer rest before after)
    (hskip : ¬ p.LooksUp source importer path) :
    IsGroupingOf source p importer (path :: rest) before after := by
  refine ⟨?_, ?_, h.isProper, h.size_le.trans (by simp)⟩
  · intro root x
    rw [h.relates_iff]
    constructor
    · rintro (hbefore | ⟨hmem, hlook⟩)
      · exact .inl hbefore
      · exact .inr ⟨List.mem_cons_of_mem _ hmem, hlook⟩
    · rintro (hbefore | ⟨hmem, hlook, hroot⟩)
      · exact .inl hbefore
      · rcases List.mem_cons.mp hmem with rfl | hmem
        · exact absurd hlook hskip
        · exact .inr ⟨hmem, hlook, hroot⟩
  · intro x hmem hlook
    rcases List.mem_cons.mp hmem with rfl | hmem
    · exact absurd hlook hskip
    · exact h.resolved x hmem hlook

theorem IsGroupingOf.cons_of_looksUp {importer : Option ProjectRoot} {path : String}
    {root : ProjectRoot} {rest : List String} {before after : Table ProjectRoot (SortedSet String)}
    (h : IsGroupingOf source p importer rest (before.update root .empty (·.insert path)) after)
    (hlook : p.LooksUp source importer path) (hroot : source.rootOf path = .ok root) :
    IsGroupingOf source p importer (path :: rest) before after := by
  refine ⟨?_, ?_, fun hproper => h.isProper (hproper.update fun set => ⟨path, by simp⟩), ?_⟩
  · intro target x
    rw [h.relates_iff, Table.relates_update_insert]
    constructor
    · rintro ((hbefore | ⟨rfl, rfl⟩) | ⟨hmem, hlook⟩)
      · exact .inl hbefore
      · exact .inr ⟨List.mem_cons_self, hlook, hroot⟩
      · exact .inr ⟨List.mem_cons_of_mem _ hmem, hlook⟩
    · rintro (hbefore | ⟨hmem, hlook', hroot'⟩)
      · exact .inl (.inl hbefore)
      · rcases List.mem_cons.mp hmem with rfl | hmem
        · obtain rfl : root = target := by simpa [hroot] using hroot'
          exact .inl (.inr ⟨rfl, rfl⟩)
        · exact .inr ⟨hmem, hlook', hroot'⟩
  · intro x hmem hlook'
    rcases List.mem_cons.mp hmem with rfl | hmem
    · exact ⟨root, hroot⟩
    · exact h.resolved x hmem hlook'
  · have hsize := before.size_insert_le root (((before.get? root).getD .empty).insert path)
    have hle := h.size_le
    rw [Table.update] at hle
    rw [List.length_cons]
    omega

/-- What sorting imports comes to: a grouping of them, or an import that has no project. -/
inductive IsGroupingOutcome (source : VersionSource) (p : Parameters)
    (importer : Option ProjectRoot) (imports : List String)
    (before : Table ProjectRoot (SortedSet String)) (r : SearchRecord) :
    Except SolveError (Table ProjectRoot (SortedSet String) × SearchRecord) → Prop
  | grouped {after : Table ProjectRoot (SortedSet String)}
      (hgroup : IsGroupingOf source p importer imports before after) :
      IsGroupingOutcome source p importer imports before r (.ok (after, r))
  | unresolved {path : String} {e : SourceError} (hpath : path ∈ imports)
      (hlook : p.LooksUp source importer path) (hroot : source.rootOf path = .error e) :
      IsGroupingOutcome source p importer imports before r (.error (.source e))

theorem IsGroupingOutcome.cons {importer : Option ProjectRoot} {path : String} {rest : List String}
    {before mid : Table ProjectRoot (SortedSet String)} {r : SearchRecord}
    {o : Except SolveError (Table ProjectRoot (SortedSet String) × SearchRecord)}
    (h : IsGroupingOutcome source p importer rest mid r o)
    (hcons : ∀ after, IsGroupingOf source p importer rest mid after →
      IsGroupingOf source p importer (path :: rest) before after) :
    IsGroupingOutcome source p importer (path :: rest) before r o := by
  cases h with
  | grouped hgroup => exact .grouped (hcons _ hgroup)
  | unresolved hpath hlook hroot => exact .unresolved (List.mem_cons_of_mem _ hpath) hlook hroot

private theorem outcome_groupImports_go (p : Parameters) (importer : Option ProjectRoot)
    (imports : List String) (before : Table ProjectRoot (SortedSet String)) (r : SearchRecord) :
    IsGroupingOutcome source p importer imports before r
      (outcome source (groupImports.go p importer before imports) r) := by
  induction imports generalizing before with
  | nil => exact .grouped ⟨by simp, by simp, id, Nat.le_refl _⟩
  | cons path rest ih =>
      rw [groupImports.go]
      split
      · rename_i hhides
        have hskip : ¬ p.LooksUp source importer path := fun hlook => by simp [hlook.1] at hhides
        exact (ih before).cons fun _ hgroup => hgroup.cons_of_not_looksUp hskip
      · rename_i hhides
        rw [Bool.not_eq_true] at hhides
        rw [outcome_bind, outcome_rootOf]
        cases hroot : source.rootOf path with
        | error e => exact .unresolved List.mem_cons_self ⟨hhides, by simp [hroot]⟩ hroot
        | ok root =>
            dsimp only
            split
            · rename_i hown
              have hskip : ¬ p.LooksUp source importer path := fun hlook =>
                hlook.2 root hown hroot
              exact (ih before).cons fun _ hgroup => hgroup.cons_of_not_looksUp hskip
            · rename_i hother
              have hlook : p.LooksUp source importer path := by
                refine ⟨hhides, ?_⟩
                rintro root' rfl hroot'
                rw [hroot] at hroot'
                cases hroot'
                exact hother rfl
              exact (ih _).cons fun _ hgroup => hgroup.cons_of_looksUp hlook hroot

theorem IsGroupingOf.isWorkOf {importer : Option ProjectRoot} {imports : List String}
    {grouped : Table ProjectRoot (SortedSet String)}
    (h : IsGroupingOf source p importer imports .empty grouped) :
    IsWorkOf source p importer imports
      (grouped.entries.map fun (target, packages) => ⟨importer, target, packages⟩) := by
  have hrelates : ∀ root path, grouped.Relates root path ↔
      path ∈ imports ∧ p.LooksUp source importer path ∧ source.rootOf path = .ok root := by
    intro root path
    rw [h.relates_iff]
    exact or_iff_right (Table.not_relates_empty root path)
  constructor
  case importer_eq =>
    intro d hd
    obtain ⟨x, -, rfl⟩ := List.mem_map.mp hd
    rfl
  case nonempty =>
    intro d hd
    obtain ⟨⟨root, packages⟩, hx, rfl⟩ := List.mem_map.mp hd
    exact h.isProper Table.isProper_empty root packages (Table.get?_eq_some_iff.mpr hx)
  case sound =>
    intro d hd path hpath
    obtain ⟨⟨root, packages⟩, hx, rfl⟩ := List.mem_map.mp hd
    exact (hrelates root path).mp ⟨packages, Table.get?_eq_some_iff.mpr hx, hpath⟩
  case complete =>
    intro path hpath hlook
    obtain ⟨root, hroot⟩ := h.resolved path hpath hlook
    obtain ⟨packages, hpackages, hmem⟩ := (hrelates root path).mpr ⟨hpath, hlook, hroot⟩
    exact ⟨_, List.mem_map.mpr ⟨(root, packages), Table.get?_eq_some_iff.mp hpackages, rfl⟩,
      hroot, hmem⟩
  case length_le =>
    have hsize := h.size_le
    rw [List.length_map]
    simpa [Table.size, Table.empty] using hsize

theorem outcome_demands (p : Parameters) (importer : Option ProjectRoot)
    (imports : SortedSet String) (r : SearchRecord) :
    (∃ work, outcome source (demands p importer imports) r = .ok (work, r) ∧
      IsWorkOf source p importer imports.toList work) ∨
    ∃ path ∈ imports, ∃ e, p.LooksUp source importer path ∧ source.rootOf path = .error e ∧
      outcome source (demands p importer imports) r = .error (.source e) := by
  rw [demands, groupImports, outcome_bind]
  have hspec := @outcome_groupImports_go source p importer imports.toList .empty r
  generalize outcome source (groupImports.go p importer .empty imports.toList) r = o at hspec
  cases hspec with
  | grouped hgroup => exact .inl ⟨_, rfl, hgroup.isWorkOf⟩
  | unresolved hpath hlook hroot => exact .inr ⟨_, hpath, _, hlook, hroot, rfl⟩

/-! ### The demands of the project that is solved -/

theorem setOf_mem_seeds (p : Parameters) :
    {seed | seed ∈ p.ownSeeds ++
      (p.required.filter fun path => !p.ignored.ignores path).toList.filter
        p.rootTree.contains} = p.rootSeeds := by
  ext seed
  simp only [Set.mem_ofPred_eq, List.mem_append, List.mem_filter, SortedSet.mem_toList,
    SortedSet.mem_filter, Bool.not_eq_true', Parameters.rootSeeds, and_assoc]

theorem rootDemands_eq (p : Parameters) :
    (∃ imports : SortedSet String, rootDemands p = demands p none imports ∧
      (∀ path, path ∈ imports ↔ p.RootImports path) ∧
      ∀ path, p.rootTree.Reaches p.ignored true p.rootSeeds path → p.rootTree.IsUsable path) ∨
    ∃ path message, rootDemands p = throw (.brokenRootPackage path message) ∧
      ∃ x, p.rootTree.Reaches p.ignored true p.rootSeeds x ∧ ¬ p.rootTree.IsUsable x := by
  rw [rootDemands]
  have husable := @PackageTree.exists_reach_eq_ok_iff p.rootTree p.ignored true (p.ownSeeds ++
    (p.required.filter fun path => !p.ignored.ignores path).toList.filter p.rootTree.contains)
  rw [setOf_mem_seeds] at husable
  dsimp only
  cases hreach : p.rootTree.reach (p.ownSeeds ++
      (p.required.filter fun path => !p.ignored.ignores path).toList.filter p.rootTree.contains)
      p.ignored true with
  | error e =>
      right
      have hbroken : ∃ x, p.rootTree.Reaches p.ignored true p.rootSeeds x ∧
          ¬ p.rootTree.IsUsable x := by
        rw [hreach] at husable
        simpa using husable
      cases e with
      | missing path importer => exact ⟨_, _, rfl, hbroken⟩
      | broken path message => exact ⟨_, _, rfl, hbroken⟩
  | ok reach =>
      left
      have hspec := PackageTree.isReach_of_reach_eq_ok hreach
      rw [setOf_mem_seeds] at hspec
      refine ⟨_, rfl, fun path => ?_, hspec.usable⟩
      rw [SortedSet.mem_union, hspec.mem_external]
      simp only [SortedSet.mem_filter, Bool.not_eq_true', Parameters.RootImports, and_assoc]
      exact or_comm

theorem outcome_rootDemands (p : Parameters) (r : SearchRecord) :
    (∃ (imports : SortedSet String) (work : List Demand),
      outcome source (rootDemands p) r = .ok (work, r) ∧
      (∀ path, path ∈ imports ↔ p.RootImports path) ∧
      IsWorkOf source p none imports.toList work ∧
      ∀ path, p.rootTree.Reaches p.ignored true p.rootSeeds path → p.rootTree.IsUsable path) ∨
    (∃ path message, outcome source (rootDemands p) r = .error (.brokenRootPackage path message) ∧
      ∃ x, p.rootTree.Reaches p.ignored true p.rootSeeds x ∧ ¬ p.rootTree.IsUsable x) ∨
    ∃ path e, p.RootImports path ∧ p.LooksUp source none path ∧ source.rootOf path = .error e ∧
      outcome source (rootDemands p) r = .error (.source e) := by
  rcases rootDemands_eq p with ⟨imports, heq, hmem, husable⟩ | ⟨path, message, heq, hbroken⟩
  · rw [heq]
    rcases @outcome_demands source p none imports r with
      ⟨work, hwork, hspecWork⟩ | ⟨path, hpath, e, hlook, hroot, herror⟩
    · exact .inl ⟨imports, work, hwork, hmem, hspecWork, husable⟩
    · exact .inr (.inr ⟨path, e, (hmem path).mp hpath, hlook, hroot, herror⟩)
  · rw [heq]
    exact .inr (.inl ⟨path, message, rfl, hbroken⟩)

end Search

end DepSolver
