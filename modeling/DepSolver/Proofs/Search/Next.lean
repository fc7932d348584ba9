import DepSolver.Proofs.Search.Demand

/-!
Which project a search decides next: of those that are pending a locked one, then one with the
fewest versions, then the first by name.
-/

namespace DepSolver

/-- The number of versions that are listed of a project, which is none if there is no list. -/
def VersionSource.listedCount (source : VersionSource) (root : ProjectRoot) : Nat :=
  (source.versionsOf root).toOption.elim 0 List.length

/-- The order of projects by the number of listed versions, the fewest first, and by name where
these are equal. -/
def VersionSource.fewestFirst (source : VersionSource) : ProjectRoot → ProjectRoot → Ordering :=
  compareLex (compareOn source.listedCount) compare

namespace Search

/-- What the choice of the next project compares: whether a project has no locked version, and how
many versions are listed of it. -/
def decisionKey (source : VersionSource) (p : Parameters) (root : ProjectRoot) : Bool × Nat :=
  ((p.lockedVersion? root).isNone, source.listedCount root)

/-- The order of these keys. -/
def compareKeys : Bool × Nat → Bool × Nat → Ordering :=
  compareLex (compareOn (·.1)) (compareOn (·.2))

/-- The order in which pending projects are decided: those with a locked version first. -/
def decisionOrder (source : VersionSource) (p : Parameters) :
    ProjectRoot → ProjectRoot → Ordering :=
  compareLex (fun a b => compareKeys (decisionKey source p a) (decisionKey source p b)) compare

variable {source : VersionSource} {p : Parameters} {root other : ProjectRoot} {r : SearchRecord}

instance : Std.TransCmp source.fewestFirst :=
  inferInstanceAs (Std.TransCmp (compareLex _ _))

instance : Std.LawfulEqCmp source.fewestFirst where
  eq_of_compare {a b} h := by
    have hname : compare a b = .eq := (Ordering.then_eq_eq.mp h).2
    exact Std.LawfulEqCmp.eq_of_compare hname

instance : Std.TransCmp compareKeys :=
  inferInstanceAs (Std.TransCmp (compareLex _ _))

theorem decisionOrder_eq_fewestFirst (hfree : ∀ root, p.lockedVersion? root = none) :
    decisionOrder source p = source.fewestFirst := by
  funext a b
  rw [decisionOrder, VersionSource.fewestFirst, compareLex, compareLex, compareKeys, compareLex,
    decisionKey, decisionKey, hfree a, hfree b]
  rfl

/-! ### The best of a list -/

/-- A project is the first of those in a list that have the least key. -/
def IsFirstLeast (source : VersionSource) (p : Parameters) (roots : List ProjectRoot)
    (root : ProjectRoot) : Prop :=
  ∃ before after, roots = before ++ root :: after ∧
    (∀ other ∈ before,
      compareKeys (decisionKey source p root) (decisionKey source p other) = .lt) ∧
    ∀ other ∈ after, (compareKeys (decisionKey source p root) (decisionKey source p other)).isLE

theorem IsFirstLeast.concat {roots : List ProjectRoot} (h : IsFirstLeast source p roots root)
    (next : ProjectRoot) :
    ∃ best, better (some (decisionKey source p root, root)) (decisionKey source p next) next =
        some (decisionKey source p best, best) ∧
      IsFirstLeast source p (roots ++ [next]) best := by
  obtain ⟨before, after, rfl, hbefore, hafter⟩ := h
  rw [better]
  split
  · rename_i hless
    have hlt : compareKeys (decisionKey source p next) (decisionKey source p root) = .lt :=
      Ordering.isLT_iff_eq_lt.mp hless
    refine ⟨next, rfl, before ++ root :: after, [], rfl, ?_, by simp⟩
    intro other hother
    rcases List.mem_append.mp hother with hmem | hmem
    · exact Std.TransCmp.lt_trans hlt (hbefore other hmem)
    · rcases List.mem_cons.mp hmem with rfl | hmem
      · exact hlt
      · exact Std.TransCmp.lt_of_lt_of_isLE hlt (hafter other hmem)
  · rename_i hnot
    have hle : (compareKeys (decisionKey source p root) (decisionKey source p next)).isLE := by
      apply Std.OrientedCmp.isLE_of_isGE
      exact Ordering.ne_lt_iff_isGE.mp fun hlt => hnot (Ordering.isLT_iff_eq_lt.mpr hlt)
    refine ⟨root, rfl, before, after ++ [next], by simp, hbefore, ?_⟩
    intro other hother
    rcases List.mem_append.mp hother with hmem | hmem
    · exact hafter other hmem
    · rw [List.mem_singleton.mp hmem]
      exact hle

/-- The best of some projects, starting from the best of others. -/
def bestOf (source : VersionSource) (p : Parameters) (best : Option ((Bool × Nat) × ProjectRoot))
    (roots : List ProjectRoot) : Option ((Bool × Nat) × ProjectRoot) :=
  roots.foldl (fun best root => better best (decisionKey source p root) root) best

theorem bestOf_none (roots : List ProjectRoot) :
    (roots = [] ∧ bestOf source p none roots = none) ∨
      ∃ root, bestOf source p none roots = some (decisionKey source p root, root) ∧
        IsFirstLeast source p roots root := by
  induction roots using List.reverseRecOn with
  | nil => exact .inl ⟨rfl, rfl⟩
  | append_singleton roots next ih =>
      have hlast : bestOf source p none (roots ++ [next]) =
          better (bestOf source p none roots) (decisionKey source p next) next :=
        List.foldl_concat ..
      rw [hlast]
      rcases ih with ⟨rfl, hnone⟩ | ⟨root, hbest, hfirst⟩
      · rw [hnone]
        exact .inr ⟨next, rfl, [], [], rfl, by simp, by simp⟩
      · rw [hbest]
        exact .inr (hfirst.concat next)

theorem IsFirstLeast.mem {roots : List ProjectRoot} (h : IsFirstLeast source p roots root) :
    root ∈ roots := by
  obtain ⟨before, after, rfl, -, -⟩ := h
  simp

theorem IsFirstLeast.isLE {roots : List ProjectRoot} (h : IsFirstLeast source p roots root)
    (hsorted : roots.Pairwise fun a b => compare a b = .lt) (hother : other ∈ roots) :
    (decisionOrder source p root other).isLE := by
  obtain ⟨before, after, rfl, hbefore, hafter⟩ := h
  rw [decisionOrder, compareLex]
  rcases List.mem_append.mp hother with hmem | hmem
  · rw [hbefore other hmem]
    rfl
  · rcases List.mem_cons.mp hmem with rfl | hmem
    · simp [Std.ReflCmp.compare_self]
    · have hname := (List.pairwise_cons.mp (List.pairwise_append.mp hsorted).2.1).1 other hmem
      rw [hname, Ordering.isLE_then_iff_and]
      exact ⟨hafter other hmem, .inr rfl⟩

/-! ### The choice -/

theorem outcome_versions? (root : ProjectRoot) (r : SearchRecord) :
    outcome source (versions? root) r =
      match source.versionsOf root with
      | .ok listed => .ok (some listed, r)
      | .error (.notFound _) => .ok (none, r)
      | .error e => .error (.source e) := by
  rw [versions?, outcome_bind, outcome_ask, VersionSource.versionsOf]
  cases source (.versions root) with
  | ok listed => rfl
  | error e => cases e <;> rfl

/-- What the choice of the next project comes to: the best of those that are pending, or a project
whose versions cannot be listed. -/
inductive IsNextOutcome (source : VersionSource) (p : Parameters)
    (best : Option ((Bool × Nat) × ProjectRoot)) (roots : List ProjectRoot) (r : SearchRecord) :
    Except SolveError (Option ProjectRoot × SearchRecord) → Prop
  | chosen : IsNextOutcome source p best roots r (.ok ((bestOf source p best roots).map (·.2), r))
  | failed {root : ProjectRoot} {e : SourceError} (hmem : root ∈ roots)
      (hversions : source.versionsOf root = .error e) :
      IsNextOutcome source p best roots r (.error (.source e))

theorem IsNextOutcome.cons {best : Option ((Bool × Nat) × ProjectRoot)} {roots : List ProjectRoot}
    {o : Except SolveError (Option ProjectRoot × SearchRecord)}
    (h : IsNextOutcome source p (better best (decisionKey source p root) root) roots r o) :
    IsNextOutcome source p best (root :: roots) r o := by
  cases h with
  | chosen => exact .chosen
  | failed hmem hversions => exact .failed (List.mem_cons_of_mem _ hmem) hversions

theorem outcome_nextAmong (best : Option ((Bool × Nat) × ProjectRoot)) (roots : List ProjectRoot)
    (r : SearchRecord) :
    IsNextOutcome source p best roots r (outcome source (nextAmong p best roots) r) := by
  induction roots generalizing best with
  | nil => exact .chosen
  | cons root rest ih =>
      have hkey : ∀ n, source.listedCount root = n →
          decisionKey source p root = ((p.lockedVersion? root).isNone, n) := by
        rintro _ rfl
        rfl
      rw [nextAmong, outcome_bind, outcome_versions?]
      cases hversions : source.versionsOf root with
      | ok listed =>
          refine .cons ?_
          rw [hkey listed.length (by rw [VersionSource.listedCount, hversions]; rfl)]
          exact ih _
      | error e =>
          cases e with
          | notFound owner =>
              refine .cons ?_
              rw [hkey 0 (by rw [VersionSource.listedCount, hversions]; rfl)]
              exact ih _
          | fetch owner message => exact .failed List.mem_cons_self hversions

end Search

end DepSolver
