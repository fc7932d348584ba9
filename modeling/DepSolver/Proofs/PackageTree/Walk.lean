import DepSolver.Proofs.PackageTree.Reach
import Mathlib.Order.Bounds.Basic

/-!
What a walk through a tree comes to: exactly the least set that has the seeds and is closed under
imports, or a path in it that cannot be used. Seeds are visited before all imports, so a seed that
is missing is reported without an importer. A walk from more seeds finds what walks from each part
of them find.
-/

namespace DepSolver.PackageTree

variable {t : PackageTree} {ignored : IgnoreRules} {tests : Bool} {seeds more : Set String}
  {reach : Reach} {pending : Pending} {path : String} {importer : Option String}

/-- A set that has the seeds, and with a package every import that is followed. -/
structure IsImportClosed (t : PackageTree) (ignored : IgnoreRules) (tests : Bool)
    (seeds closed : Set String) : Prop where
  seed : ∀ path ∈ seeds, ignored.ignores path = false → path ∈ closed
  step : ∀ importer ∈ closed, ∀ p, t.get? importer = some (.package p) →
    ∀ path ∈ importsOf tests p, t.IsFollowed ignored path → path ∈ closed

theorem isLeast_reaches (t : PackageTree) (ignored : IgnoreRules) (tests : Bool)
    (seeds : Set String) :
    IsLeast {closed | t.IsImportClosed ignored tests seeds closed}
      {path | t.Reaches ignored tests seeds path} := by
  constructor
  · constructor
    · exact fun path hmem hkept => .seed hmem hkept
    · exact fun importer himporter p hfound path hmem hfollowed =>
        Reaches.step himporter hfound hmem hfollowed
  · rintro closed ⟨hseed, hstep⟩ path hpath
    induction hpath with
    | seed hmem hkept => exact hseed _ hmem hkept
    | step _ hfound hmem hfollowed ih => exact hstep _ ih _ hfound _ hmem hfollowed

/-! ### Seeds come first -/

/-- Seeds that are not yet reached are pending as such, before everything that is imported. -/
structure SeedsFirst (ignored : IgnoreRules) (seeds : Set String) (reach : Reach)
    (pending : Pending) : Prop where
  waiting : ∀ seed ∈ seeds, ignored.ignores seed = false →
    seed ∈ reach.internal ∨ (seed, none) ∈ pending
  first : pending.Pairwise fun x y => y.2 = none → x.2 = none

theorem SeedsFirst.start (ignored : IgnoreRules) (seeds : List String) :
    SeedsFirst ignored {seed | seed ∈ seeds} .empty (seeds.map (·, none)) := by
  constructor
  · intro seed hseed _
    exact .inr (List.mem_map.mpr ⟨seed, hseed, rfl⟩)
  · rw [List.pairwise_map]
    exact List.pairwise_of_forall fun _ _ => id

theorem SeedsFirst.eq_none (h : SeedsFirst ignored seeds reach ((path, importer) :: pending))
    (hseed : path ∈ seeds) (hkept : ignored.ignores path = false) (hnew : path ∉ reach.internal) :
    importer = none := by
  have hmem := (h.waiting path hseed hkept).resolve_left hnew
  rcases List.mem_cons.mp hmem with heq | hmem
  · cases heq
    rfl
  · exact (List.pairwise_cons.mp h.first).1 _ hmem rfl

theorem SeedsFirst.skip (h : SeedsFirst ignored seeds reach ((path, importer) :: pending))
    (hdrop : ignored.ignores path = true ∨ path ∈ reach.internal) :
    SeedsFirst ignored seeds reach pending := by
  refine ⟨?_, (List.pairwise_cons.mp h.first).2⟩
  intro seed hseed hkept
  rcases h.waiting seed hseed hkept with hin | hmem
  · exact .inl hin
  · rcases List.mem_cons.mp hmem with heq | hmem
    · cases heq
      exact .inl (hdrop.resolve_left (by simp [hkept]))
    · exact .inr hmem

theorem SeedsFirst.take {imports : List String} {result : Reach × Pending}
    (h : SeedsFirst ignored seeds reach ((path, importer) :: pending))
    (hsorted : SortedImports t ignored path { reach with internal := reach.internal.insert path }
      imports result) :
    SeedsFirst ignored seeds result.1 (pending ++ result.2) := by
  have hadded : ∀ x ∈ result.2, x.2 = some path := fun x hx =>
    ((hsorted.pending x.1 x.2).mp hx).1
  constructor
  · intro seed hseed hkept
    rw [hsorted.internal, SortedSet.mem_insert]
    rcases h.waiting seed hseed hkept with hin | hmem
    · exact .inl (.inr hin)
    · rcases List.mem_cons.mp hmem with heq | hmem
      · cases heq
        exact .inl (.inl rfl)
      · exact .inr (List.mem_append_left _ hmem)
  · refine List.pairwise_append.mpr ⟨(List.pairwise_cons.mp h.first).2, ?_, ?_⟩
    · exact List.pairwise_of_forall_mem_list fun _ _ y hy hnone => by simp [hadded y hy] at hnone
    · exact fun _ _ y hy hnone => by simp [hadded y hy] at hnone

theorem SeedsFirst.visit {fuel : Nat} (h : SeedsFirst ignored seeds reach pending)
    (hvisit : t.visit ignored tests fuel reach pending = .error (.missing path importer))
    (hseed : path ∈ seeds) : importer = none := by
  induction fuel generalizing reach pending with
  | zero => cases pending <;> cases hvisit
  | succ fuel ih =>
      cases pending with
      | nil => cases hvisit
      | cons head pending =>
          obtain ⟨next, from?⟩ := head
          rw [PackageTree.visit] at hvisit
          split at hvisit
          · rename_i hdrop
            simp only [Bool.or_eq_true, SortedSet.contains_iff] at hdrop
            exact ih (h.skip hdrop) hvisit
          · rename_i hgo
            simp only [Bool.or_eq_true, SortedSet.contains_iff, not_or, Bool.not_eq_true] at hgo
            split at hvisit
            · cases hvisit
              exact h.eq_none hseed hgo.1 hgo.2
            · cases hvisit
            · exact ih (h.take (sortImports_sorted t ignored next _ _)) hvisit

theorem importer_eq_none_iff {seeds : List String}
    (h : t.reach seeds ignored tests = .error (.missing path importer)) :
    importer = none ↔ path ∈ seeds := by
  have hexplains := reach_isWalkResult t seeds ignored tests
  rw [h] at hexplains
  obtain ⟨-, -, hpending⟩ := hexplains
  constructor
  · rintro rfl
    exact hpending
  · exact (SeedsFirst.start ignored seeds).visit h

/-! ### Walks from more seeds -/

theorem reaches_union : t.Reaches ignored tests (seeds ∪ more) path ↔
    t.Reaches ignored tests seeds path ∨ t.Reaches ignored tests more path := by
  refine Iff.trans ?_ (or_congr reaches_iff_exists_seed reaches_iff_exists_seed).symm
  rw [reaches_iff_exists_seed]
  simp only [Set.mem_union, or_and_right, exists_or]

private theorem leadsOut_union : t.LeadsOut ignored tests (seeds ∪ more) path ↔
    t.LeadsOut ignored tests seeds path ∨ t.LeadsOut ignored tests more path := by
  refine Iff.trans ?_ (or_congr leadsOut_iff_exists_seed leadsOut_iff_exists_seed).symm
  rw [leadsOut_iff_exists_seed]
  simp only [Set.mem_union, or_and_right, exists_or]

theorem setOf_mem_append (seeds more : List String) :
    {seed | seed ∈ seeds ++ more} = {seed | seed ∈ seeds} ∪ {seed | seed ∈ more} := by
  ext seed
  exact List.mem_append

theorem exists_reach_append_iff {seeds more : List String} :
    (∃ reach, t.reach (seeds ++ more) ignored tests = .ok reach) ↔
      (∃ reach, t.reach seeds ignored tests = .ok reach) ∧
        ∃ reach, t.reach more ignored tests = .ok reach := by
  simp only [exists_reach_eq_ok_iff, setOf_mem_append, reaches_union, or_imp, forall_and]

theorem reach_append {seeds more : List String} {reach reach' : Reach}
    (h : t.reach seeds ignored tests = .ok reach)
    (h' : t.reach more ignored tests = .ok reach') :
    t.reach (seeds ++ more) ignored tests =
      .ok ⟨reach.internal.union reach'.internal, reach.external.union reach'.external⟩ := by
  obtain ⟨⟨internal, external⟩, hboth⟩ := exists_reach_append_iff.mpr ⟨⟨_, h⟩, _, h'⟩
  have hspec := isReach_of_reach_eq_ok h
  have hspec' := isReach_of_reach_eq_ok h'
  have hspecBoth := isReach_of_reach_eq_ok hboth
  rw [setOf_mem_append] at hspecBoth
  have hinternal : internal = reach.internal.union reach'.internal := by
    apply SortedSet.ext
    intro path
    rw [SortedSet.mem_union, hspec.mem_internal, hspec'.mem_internal, ← reaches_union]
    exact hspecBoth.mem_internal path
  have hexternal : external = reach.external.union reach'.external := by
    apply SortedSet.ext
    intro path
    rw [SortedSet.mem_union, hspec.mem_external, hspec'.mem_external, ← leadsOut_union]
    exact hspecBoth.mem_external path
  rw [hboth, hinternal, hexternal]

/-! ### The walk computes the closure -/

/-- What a failure reports: a path that is reached and is broken in this way, or has no entry. The
importer of a missing path is a package that is reached and imports it, and none for a seed. -/
def Reports (t : PackageTree) (ignored : IgnoreRules) (tests : Bool) (seeds : Set String) :
    ReachFailure → Prop
  | .broken path message => t.Reaches ignored tests seeds path ∧
      t.get? path = some (.broken message)
  | .missing path importer => t.Reaches ignored tests seeds path ∧ t.get? path = none ∧
      (importer = none ↔ path ∈ seeds) ∧ ∀ i, importer = some i → ∃ p,
        t.Reaches ignored tests seeds i ∧ t.get? i = some (.package p) ∧ path ∈ importsOf tests p

private theorem reports_of_reach_eq_error {seeds : List String} {e : ReachFailure}
    (h : t.reach seeds ignored tests = .error e) :
    t.Reports ignored tests {seed | seed ∈ seeds} e := by
  have hexplains := reach_isWalkResult t seeds ignored tests
  rw [h] at hexplains
  cases e with
  | broken path message => exact hexplains
  | missing path importer =>
      obtain ⟨hreaches, hmissing, hpending⟩ := hexplains
      refine ⟨hreaches, hmissing, importer_eq_none_iff h, ?_⟩
      rintro i rfl
      obtain ⟨p, himporter, hfound, hmem, -⟩ := hpending
      exact ⟨p, himporter, hfound, hmem⟩

/-- A walk comes to the least set that has the seeds and is closed under imports, with the imports
that lead out of it, if all of the set can be used, and else reports a path of it. So walks from two
lists of seeds come to what a walk from both comes to. -/
theorem reach_exact (t : PackageTree) (ignored : IgnoreRules) (tests : Bool)
    (seeds : List String) :
    IsLeast {closed | t.IsImportClosed ignored tests {seed | seed ∈ seeds} closed}
      {path | t.Reaches ignored tests {seed | seed ∈ seeds} path} ∧
    ((∃ reach, t.reach seeds ignored tests = .ok reach) ↔
      ∀ path, t.Reaches ignored tests {seed | seed ∈ seeds} path →
        ∃ p, t.get? path = some (.package p)) ∧
    (∀ reach, t.reach seeds ignored tests = .ok reach → ∀ path,
      (path ∈ reach.internal ↔ t.Reaches ignored tests {seed | seed ∈ seeds} path) ∧
      (path ∈ reach.external ↔ ∃ importer p,
        t.Reaches ignored tests {seed | seed ∈ seeds} importer ∧
        t.get? importer = some (.package p) ∧ path ∈ importsOf tests p ∧
        ignored.ignores path = false ∧ t.follows path = false ∧
        ImportPath.isStandard path = false)) ∧
    (∀ e, t.reach seeds ignored tests = .error e →
      t.Reports ignored tests {seed | seed ∈ seeds} e) ∧
    ∀ more : List String,
      ((∃ reach, t.reach (seeds ++ more) ignored tests = .ok reach) ↔
        (∃ reach, t.reach seeds ignored tests = .ok reach) ∧
          ∃ reach, t.reach more ignored tests = .ok reach) ∧
      ∀ reach reach', t.reach seeds ignored tests = .ok reach →
        t.reach more ignored tests = .ok reach' →
        t.reach (seeds ++ more) ignored tests =
          .ok ⟨reach.internal.union reach'.internal, reach.external.union reach'.external⟩ := by
  refine ⟨isLeast_reaches t ignored tests _, exists_reach_eq_ok_iff, ?_, ?_, fun more =>
    ⟨exists_reach_append_iff, fun _ _ h h' => reach_append h h'⟩⟩
  · intro reach h path
    have hspec := isReach_of_reach_eq_ok h
    exact ⟨hspec.mem_internal path, hspec.mem_external path⟩
  · exact fun _ h => reports_of_reach_eq_error h

/-- Two packages that import each other, one of which has a test that imports a missing one. -/
def cyclicTree : PackageTree :=
  ((ofRoot "root.io").insertPackage
    ⟨"root.io/a", "a", ["fmt", "root.io/b"], []⟩).insertPackage
    ⟨"root.io/b", "b", ["root.io/a", "x.io"], ["root.io/gone"]⟩

theorem reach_exact_cyclicTree :
    (∀ path, cyclicTree.Reaches .none false {seed | seed ∈ ["root.io/a", "root.io/a"]} path →
      ∃ p, cyclicTree.get? path = some (.package p)) ∧
    cyclicTree.Reports .none true {seed | seed ∈ ["root.io/a"]}
      (.missing "root.io/gone" (some "root.io/b")) ∧
    cyclicTree.reach (["root.io/a"] ++ ["root.io/b"]) .none false =
      .ok ⟨.ofList ["root.io/a", "root.io/b"], .ofList ["x.io"]⟩ := by
  have hok : cyclicTree.reach ["root.io/a", "root.io/a"] .none false =
      .ok ⟨.ofList ["root.io/a", "root.io/b"], .ofList ["x.io"]⟩ := by
    decide +kernel
  have herror : cyclicTree.reach ["root.io/a"] .none true =
      .error (.missing "root.io/gone" (some "root.io/b")) := by
    decide +kernel
  refine ⟨?_, ?_, ?_⟩
  · exact (reach_exact cyclicTree .none false ["root.io/a", "root.io/a"]).2.1.mp ⟨_, hok⟩
  · exact (reach_exact cyclicTree .none true ["root.io/a"]).2.2.2.1 _ herror
  · obtain ⟨-, -, -, -, happend⟩ := reach_exact cyclicTree .none false ["root.io/a"]
    rw [(happend ["root.io/b"]).2 ⟨.ofList ["root.io/a", "root.io/b"], .ofList ["x.io"]⟩
      ⟨.ofList ["root.io/a", "root.io/b"], .ofList ["x.io"]⟩ (by decide +kernel)
      (by decide +kernel)]
    decide +kernel

end DepSolver.PackageTree
