import DepSolver.PackageTree.Reach
import DepSolver.Proofs.SortedSet
import DepSolver.Proofs.Table
import Mathlib.Algebra.Order.BigOperators.Group.List
import Mathlib.Algebra.Order.Group.Nat
import Mathlib.Data.List.Induction
import Mathlib.Data.Set.Insert

/-!
What is reached from some packages, as a least set: the seeds that are not ignored, and with every
package the imports that are followed. The walk over pending paths computes exactly this set.
-/

namespace DepSolver.PackageTree

/-- An import that is visited in the tree. -/
def IsFollowed (t : PackageTree) (ignored : IgnoreRules) (path : String) : Prop :=
  ignored.ignores path = false ∧ t.follows path = true

/-- An import that is collected because it leads out of the tree. -/
def IsOutside (t : PackageTree) (ignored : IgnoreRules) (path : String) : Prop :=
  ignored.ignores path = false ∧ t.follows path = false ∧ ImportPath.isStandard path = false

/-- The paths that are reached from seeds. -/
inductive Reaches (t : PackageTree) (ignored : IgnoreRules) (tests : Bool) (seeds : Set String) :
    String → Prop
  | seed {path : String} (hmem : path ∈ seeds) (hkept : ignored.ignores path = false) :
      Reaches t ignored tests seeds path
  | step {importer path : String} {p : Package} (himporter : Reaches t ignored tests seeds importer)
      (hfound : t.get? importer = some (.package p)) (hmem : path ∈ importsOf tests p)
      (hfollowed : t.IsFollowed ignored path) : Reaches t ignored tests seeds path

/-- The imports of reached packages that lead out of the tree. -/
def LeadsOut (t : PackageTree) (ignored : IgnoreRules) (tests : Bool) (seeds : Set String)
    (path : String) : Prop :=
  ∃ importer p, t.Reaches ignored tests seeds importer ∧
    t.get? importer = some (.package p) ∧ path ∈ importsOf tests p ∧ t.IsOutside ignored path

variable {t : PackageTree} {ignored : IgnoreRules} {tests : Bool} {seeds more : Set String}

theorem Reaches.ignores_eq_false {path : String} (h : t.Reaches ignored tests seeds path) :
    ignored.ignores path = false := by
  cases h with
  | seed _ hkept => exact hkept
  | step _ _ _ hfollowed => exact hfollowed.1

theorem Reaches.trans (hseeds : ∀ seed ∈ seeds, ignored.ignores seed = false →
      t.Reaches ignored tests more seed)
    {path : String} (h : t.Reaches ignored tests seeds path) :
    t.Reaches ignored tests more path := by
  induction h with
  | seed hmem hkept => exact hseeds _ hmem hkept
  | step _ hfound hmem hfollowed ih => exact .step ih hfound hmem hfollowed

theorem Reaches.mono (hsub : seeds ⊆ more) {path : String}
    (h : t.Reaches ignored tests seeds path) : t.Reaches ignored tests more path :=
  h.trans fun _ hmem hkept => .seed (hsub hmem) hkept

theorem reaches_iff_exists_seed {path : String} :
    t.Reaches ignored tests seeds path ↔
      ∃ seed ∈ seeds, t.Reaches ignored tests {seed} path := by
  constructor
  · intro h
    induction h with
    | seed hmem hkept => exact ⟨_, hmem, .seed rfl hkept⟩
    | step _ hfound hmem hfollowed ih =>
        obtain ⟨seed, hseed, hreaches⟩ := ih
        exact ⟨seed, hseed, .step hreaches hfound hmem hfollowed⟩
  · rintro ⟨seed, hseed, h⟩
    exact h.mono (Set.singleton_subset_iff.mpr hseed)

theorem leadsOut_iff_exists_seed {path : String} :
    t.LeadsOut ignored tests seeds path ↔
      ∃ seed ∈ seeds, t.LeadsOut ignored tests {seed} path := by
  constructor
  · rintro ⟨importer, p, hreaches, hfound, hmem, houtside⟩
    obtain ⟨seed, hseed, hreaches⟩ := reaches_iff_exists_seed.mp hreaches
    exact ⟨seed, hseed, importer, p, hreaches, hfound, hmem, houtside⟩
  · rintro ⟨seed, hseed, importer, p, hreaches, hfound, hmem, houtside⟩
    exact ⟨importer, p, reaches_iff_exists_seed.mpr ⟨seed, hseed, hreaches⟩, hfound, hmem,
      houtside⟩

/-- A path that is pending because it is a seed, or because a reached package imports it. -/
def IsPending (t : PackageTree) (ignored : IgnoreRules) (tests : Bool) (seeds : Set String)
    (path : String) : Option String → Prop
  | none => path ∈ seeds
  | some importer => ∃ p, t.Reaches ignored tests seeds importer ∧
      t.get? importer = some (.package p) ∧ path ∈ importsOf tests p ∧ t.IsFollowed ignored path

theorem IsPending.reaches {path : String} {importer : Option String}
    (h : t.IsPending ignored tests seeds path importer) (hkept : ignored.ignores path = false) :
    t.Reaches ignored tests seeds path := by
  cases importer with
  | none => exact .seed h hkept
  | some importer =>
      obtain ⟨p, hreaches, hfound, hmem, hfollowed⟩ := h
      exact .step hreaches hfound hmem hfollowed

/-- What a failure says about the paths that are reached. -/
def Explains (t : PackageTree) (ignored : IgnoreRules) (tests : Bool) (seeds : Set String) :
    ReachFailure → Prop
  | .missing path importer => t.Reaches ignored tests seeds path ∧ t.get? path = none ∧
      t.IsPending ignored tests seeds path importer
  | .broken path message => t.Reaches ignored tests seeds path ∧
      t.get? path = some (.broken message)

/-! ### Sorting imports -/

private theorem sortImports_concat (t : PackageTree) (ignored : IgnoreRules) (importer : String)
    (reach : Reach) (imports : List String) (path : String) :
    t.sortImports ignored importer reach (imports ++ [path]) =
      let (reach, pending) := t.sortImports ignored importer reach imports
      if ignored.ignores path then (reach, pending)
      else if t.follows path then
        if reach.internal.contains path then (reach, pending)
        else (reach, pending ++ [(path, some importer)])
      else if ImportPath.isStandard path then (reach, pending)
      else ({ reach with external := reach.external.insert path }, pending) := by
  rw [sortImports, List.foldl_append]
  rfl

/-- What becomes of the imports of a package. -/
structure SortedImports (t : PackageTree) (ignored : IgnoreRules) (importer : String)
    (reach : Reach) (imports : List String) (result : Reach × Pending) : Prop where
  internal : result.1.internal = reach.internal
  external : ∀ path, path ∈ result.1.external ↔
    path ∈ reach.external ∨ (path ∈ imports ∧ t.IsOutside ignored path)
  pending : ∀ path from?, (path, from?) ∈ result.2 ↔
    from? = some importer ∧ path ∈ imports ∧ t.IsFollowed ignored path ∧ path ∉ reach.internal
  length_le : result.2.length ≤ imports.length

theorem SortedImports.concat {importer : String} {reach : Reach} {imports : List String}
    {path : String} {result : Reach × Pending}
    (h : SortedImports t ignored importer reach imports result)
    (hfollowed : t.IsFollowed ignored path → path ∈ reach.internal)
    (houtside : ¬ t.IsOutside ignored path) :
    SortedImports t ignored importer reach (imports ++ [path]) result := by
  obtain ⟨hinternal, hexternal, hpending, hlength⟩ := h
  refine ⟨hinternal, ?_, ?_, hlength.trans (by simp)⟩
  · intro x
    rw [hexternal]
    grind
  · intro x from?
    rw [hpending]
    grind

theorem sortImports_sorted (t : PackageTree) (ignored : IgnoreRules) (importer : String)
    (reach : Reach) (imports : List String) :
    SortedImports t ignored importer reach imports
      (t.sortImports ignored importer reach imports) := by
  -- The imports are folded from the left, so the last one is sorted after all others.
  induction imports using List.reverseRecOn with
  | nil => exact ⟨rfl, by simp [sortImports], by simp [sortImports], Nat.le_refl _⟩
  | append_singleton imports path ih =>
      rw [sortImports_concat]
      generalize t.sortImports ignored importer reach imports = result at *
      obtain ⟨reach', pending⟩ := result
      obtain ⟨hinternal, hexternal, hpending, hlength⟩ := id ih
      dsimp only at hinternal hexternal hpending hlength ⊢
      rw [hinternal]
      split
      · rename_i hignored
        exact ih.concat (fun h => by simp [h.1] at hignored) fun h => by simp [h.1] at hignored
      · rename_i hkept
        rw [Bool.not_eq_true] at hkept
        split
        · rename_i hfollows
          have hinside : ¬ t.IsOutside ignored path := fun h => by simp [h.2.1] at hfollows
          split
          · rename_i hseen
            exact ih.concat (fun _ => SortedSet.contains_iff.mp hseen) hinside
          · rename_i hnew
            rw [SortedSet.contains_iff] at hnew
            refine ⟨hinternal, ?_, ?_, by simpa using hlength⟩
            · intro x
              rw [hexternal]
              grind
            · intro x from?
              rw [List.mem_append, hpending]
              grind [IsFollowed]
        · rename_i hleads
          have hfollowed : ¬ t.IsFollowed ignored path := fun h => hleads h.2
          split
          · rename_i hstandard
            exact ih.concat (fun h => absurd h hfollowed) fun h => by simp [h.2.2] at hstandard
          · refine ⟨rfl, ?_, ?_, hlength.trans (by simp)⟩
            · intro x
              rw [SortedSet.mem_insert, hexternal]
              grind [IsOutside]
            · intro x from?
              rw [hpending]
              grind

/-! ### The walk -/

/-- What holds at every moment of a walk from seeds: everything reached comes from them, and what is
still to be reached is pending. -/
structure WalkInvariant (t : PackageTree) (ignored : IgnoreRules) (tests : Bool)
    (seeds : Set String) (reach : Reach) (pending : Pending) : Prop where
  justified : ∀ path importer, (path, importer) ∈ pending →
    t.IsPending ignored tests seeds path importer
  reached : ∀ path ∈ reach.internal, t.Reaches ignored tests seeds path ∧
    ∃ p, t.get? path = some (.package p)
  seeded : ∀ seed ∈ seeds, ignored.ignores seed = false →
    seed ∈ reach.internal ∨ ∃ importer, (seed, importer) ∈ pending
  followed : ∀ importer ∈ reach.internal, ∀ p, t.get? importer = some (.package p) →
    ∀ path ∈ importsOf tests p, t.IsFollowed ignored path →
      path ∈ reach.internal ∨ ∃ importer, (path, importer) ∈ pending
  collected : ∀ path, path ∈ reach.external ↔ ∃ importer ∈ reach.internal, ∃ p,
    t.get? importer = some (.package p) ∧ path ∈ importsOf tests p ∧ t.IsOutside ignored path

variable {reach : Reach} {pending : Pending} {path : String} {importer : Option String}

theorem WalkInvariant.start (t : PackageTree) (ignored : IgnoreRules) (tests : Bool)
    (seeds : List String) :
    WalkInvariant t ignored tests {seed | seed ∈ seeds} .empty (seeds.map (·, none)) where
  justified path importer hmem := by
    obtain ⟨seed, hseed, heq⟩ := List.mem_map.mp hmem
    cases heq
    exact hseed
  reached _ hmem := absurd hmem (SortedSet.not_mem_empty _)
  seeded seed hseed _ := .inr ⟨none, List.mem_map.mpr ⟨seed, hseed, rfl⟩⟩
  followed _ hmem := absurd hmem (SortedSet.not_mem_empty _)
  collected path := by simp [Reach.empty]

theorem WalkInvariant.skip
    (h : WalkInvariant t ignored tests seeds reach ((path, importer) :: pending))
    (hdrop : ignored.ignores path = true ∨ path ∈ reach.internal) :
    WalkInvariant t ignored tests seeds reach pending where
  justified path' importer' hmem := h.justified path' importer' (List.mem_cons_of_mem _ hmem)
  reached := h.reached
  collected := h.collected
  seeded seed hseed hkept := by
    rcases h.seeded seed hseed hkept with hin | ⟨importer', hmem⟩
    · exact .inl hin
    · rcases List.mem_cons.mp hmem with heq | hmem
      · cases heq
        simp only [hkept, Bool.false_eq_true, false_or] at hdrop
        exact .inl hdrop
      · exact .inr ⟨importer', hmem⟩
  followed from' hfrom p hfound path' hpath' hfollowed := by
    rcases h.followed from' hfrom p hfound path' hpath' hfollowed with hin | ⟨importer', hmem⟩
    · exact .inl hin
    · rcases List.mem_cons.mp hmem with heq | hmem
      · cases heq
        simp only [hfollowed.1, Bool.false_eq_true, false_or] at hdrop
        exact .inl hdrop
      · exact .inr ⟨importer', hmem⟩

theorem WalkInvariant.take {p : Package} {result : Reach × Pending}
    (h : WalkInvariant t ignored tests seeds reach ((path, importer) :: pending))
    (hkept : ignored.ignores path = false) (hfound : t.get? path = some (.package p))
    (hsorted : SortedImports t ignored path { reach with internal := reach.internal.insert path }
      (importsOf tests p) result) :
    WalkInvariant t ignored tests seeds result.1 (pending ++ result.2) := by
  obtain ⟨hinternal, hexternal, hpending, -⟩ := hsorted
  have hpath : t.Reaches ignored tests seeds path :=
    (h.justified path importer List.mem_cons_self).reaches hkept
  have hstays : ∀ x, (x ∈ reach.internal ∨ ∃ from?, (x, from?) ∈ (path, importer) :: pending) →
      x ∈ result.1.internal ∨ ∃ from?, (x, from?) ∈ pending ++ result.2 := by
    rintro x (hin | ⟨from?, hmem⟩)
    · exact .inl (by simp [hinternal, hin])
    · rcases List.mem_cons.mp hmem with heq | hmem
      · cases heq
        exact .inl (by simp [hinternal])
      · exact .inr ⟨from?, List.mem_append_left _ hmem⟩
  constructor
  case justified =>
    intro x from? hmem
    rcases List.mem_append.mp hmem with hmem | hmem
    · exact h.justified x from? (List.mem_cons_of_mem _ hmem)
    · obtain ⟨rfl, hx, hfollowed, -⟩ := (hpending x from?).mp hmem
      exact ⟨p, hpath, hfound, hx, hfollowed⟩
  case reached =>
    intro x hx
    rw [hinternal, SortedSet.mem_insert] at hx
    rcases hx with rfl | hx
    · exact ⟨hpath, p, hfound⟩
    · exact h.reached x hx
  case seeded =>
    intro seed hseed hseedKept
    exact hstays seed (h.seeded seed hseed hseedKept)
  case followed =>
    intro x hx q hq y hy hfollowed
    rw [hinternal, SortedSet.mem_insert] at hx
    rcases hx with rfl | hx
    · obtain rfl : p = q := by simpa [hfound] using hq
      by_cases hin : y ∈ reach.internal.insert x
      · exact .inl (hinternal ▸ hin)
      · exact .inr ⟨some x, List.mem_append_right _
          ((hpending y (some x)).mpr ⟨rfl, hy, hfollowed, hin⟩)⟩
    · exact hstays y (h.followed x hx q hq y hy hfollowed)
  case collected =>
    intro y
    rw [hexternal, hinternal, h.collected]
    constructor
    · rintro (⟨x, hx, q, hq, hy, houtside⟩ | ⟨hy, houtside⟩)
      · exact ⟨x, SortedSet.mem_insert.mpr (.inr hx), q, hq, hy, houtside⟩
      · exact ⟨path, SortedSet.mem_insert.mpr (.inl rfl), p, hfound, hy, houtside⟩
    · rintro ⟨x, hx, q, hq, hy, houtside⟩
      rcases SortedSet.mem_insert.mp hx with rfl | hx
      · obtain rfl : p = q := by simpa [hfound] using hq
        exact .inr ⟨hy, houtside⟩
      · exact .inl ⟨x, hx, q, hq, hy, houtside⟩

theorem WalkInvariant.reaches_iff (h : WalkInvariant t ignored tests seeds reach [])
    (path : String) : t.Reaches ignored tests seeds path ↔ path ∈ reach.internal := by
  constructor
  · intro hreaches
    induction hreaches with
    | seed hmem hkept => simpa using h.seeded _ hmem hkept
    | step _ hfound hmem hfollowed ih => simpa using h.followed _ ih _ hfound _ hmem hfollowed
  · exact fun hmem => (h.reached path hmem).1

/-! ### The number of steps -/

def entryImports : PackageEntry → Nat
  | .package p => p.imports.length + p.testImports.length
  | .broken _ => 0

private theorem length_importsOf_le (tests : Bool) (p : Package) :
    (importsOf tests p).length ≤ entryImports (.package p) := by
  cases tests <;> simp [importsOf, entryImports]

/-- The imports that a walk has still to look at. -/
def remaining (t : PackageTree) (internal : SortedSet String) : Nat :=
  ((t.packages.entries.filter fun x => !internal.contains x.1).map (entryImports ·.2)).sum

private theorem importCount_eq (t : PackageTree) :
    t.importCount = (t.packages.entries.map (entryImports ·.2)).sum := by
  rw [importCount, validPackages, Table.values]
  induction t.packages.entries with
  | nil => rfl
  | cons x rest ih =>
      obtain ⟨path, entry⟩ := x
      cases entry with
      | package p => simpa [PackageEntry.package?, entryImports] using ih
      | broken message => simpa [PackageEntry.package?, entryImports] using ih

theorem remaining_empty (t : PackageTree) : t.remaining .empty = t.importCount := by
  rw [importCount_eq, remaining, List.filter_eq_self.mpr]
  intro x _
  rfl

private theorem sum_filter_add_le {α : Type} {l : List α} {keep keep' : α → Bool} {f : α → Nat} {a :
    α}
    (hsub : ∀ x, keep' x = true → keep x = true) (hmem : a ∈ l) (ha : keep a = true)
    (ha' : keep' a = false) :
    ((l.filter keep').map f).sum + f a ≤ ((l.filter keep).map f).sum := by
  induction l with
  | nil => cases hmem
  | cons x rest ih =>
      have hrest : ((rest.filter keep').map f).sum ≤ ((rest.filter keep).map f).sum :=
        ((List.monotone_filter_right rest hsub).map f).sum_le_sum fun _ _ => Nat.zero_le _
      rcases List.mem_cons.mp hmem with rfl | hmem
      · simp only [List.filter_cons, ha, ha', Bool.false_eq_true, if_false, if_true, List.map_cons,
          List.sum_cons]
        omega
      · have hih := ih hmem
        cases hx : keep' x with
        | true =>
            simp only [List.filter_cons, hx, hsub x hx, if_true, List.map_cons, List.sum_cons]
            omega
        | false =>
            cases hx' : keep x <;>
              simp only [List.filter_cons, hx, hx', Bool.false_eq_true, if_false, if_true,
                List.map_cons, List.sum_cons] <;> omega

private theorem remaining_insert {internal : SortedSet String} {p : Package}
    (hnew : path ∉ internal) (hfound : t.get? path = some (.package p)) :
    t.remaining (internal.insert path) + entryImports (.package p) ≤ t.remaining internal := by
  apply sum_filter_add_le (a := (path, PackageEntry.package p))
  · intro x hx
    simp only [Bool.not_eq_true', SortedSet.contains_eq_false_iff, SortedSet.mem_insert,
      not_or] at hx ⊢
    exact hx.2
  · exact Table.get?_eq_some_iff.mp hfound
  · simpa [SortedSet.contains_eq_false_iff] using hnew
  · simp

/-- A package that is taken adds no more than its imports, which then no longer remain. -/
theorem length_add_remaining_lt (pending : Pending) {p : Package} {result : Reach × Pending}
    (hnew : path ∉ reach.internal) (hfound : t.get? path = some (.package p))
    (hsorted : SortedImports t ignored path { reach with internal := reach.internal.insert path }
      (importsOf tests p) result) :
    (pending ++ result.2).length + t.remaining result.1.internal <
      pending.length + 1 + t.remaining reach.internal := by
  have hremaining := remaining_insert hnew hfound
  have hlength := hsorted.length_le
  have himports := length_importsOf_le tests p
  rw [hsorted.internal, List.length_append]
  dsimp only
  omega

/-- What a walk comes to: the least set, or a path of it that cannot be used. -/
def IsWalkResult (t : PackageTree) (ignored : IgnoreRules) (tests : Bool) (seeds : Set String) :
    Except ReachFailure Reach → Prop
  | .ok reach => WalkInvariant t ignored tests seeds reach []
  | .error e => t.Explains ignored tests seeds e

theorem WalkInvariant.visit {fuel : Nat} (h : WalkInvariant t ignored tests seeds reach pending)
    (hfuel : pending.length + t.remaining reach.internal ≤ fuel) :
    t.IsWalkResult ignored tests seeds (t.visit ignored tests fuel reach pending) := by
  induction fuel generalizing reach pending with
  | zero =>
      have hnil : pending = [] := List.eq_nil_of_length_eq_zero (by omega)
      subst hnil
      exact h
  | succ fuel ih =>
      cases pending with
      | nil => exact h
      | cons head pending =>
          obtain ⟨path, importer⟩ := head
          rw [List.length_cons] at hfuel
          rw [PackageTree.visit]
          split
          · rename_i hdrop
            simp only [Bool.or_eq_true, SortedSet.contains_iff] at hdrop
            exact ih (h.skip hdrop) (by omega)
          · rename_i hgo
            simp only [Bool.or_eq_true, SortedSet.contains_iff, not_or] at hgo
            obtain ⟨hkept, hnew⟩ := hgo
            rw [Bool.not_eq_true] at hkept
            have hpending := h.justified path importer List.mem_cons_self
            split
            · rename_i hmissing
              exact ⟨hpending.reaches hkept, hmissing, hpending⟩
            · rename_i message hbroken
              exact ⟨hpending.reaches hkept, hbroken⟩
            · rename_i p hfound
              have hsorted := sortImports_sorted t ignored path
                { reach with internal := reach.internal.insert path } (importsOf tests p)
              change t.IsWalkResult ignored tests seeds (t.visit ignored tests fuel
                (t.sortImports ignored path _ _).1 (pending ++ (t.sortImports ignored path _ _).2))
              generalize t.sortImports ignored path
                { reach with internal := reach.internal.insert path } (importsOf tests p) =
                  result at hsorted ⊢
              refine ih (h.take hkept hfound hsorted) ?_
              have hstep := length_add_remaining_lt pending hnew hfound hsorted
              omega

theorem visit_add {fuel : Nat} (hfuel : pending.length + t.remaining reach.internal ≤ fuel)
    (more : Nat) :
    t.visit ignored tests (fuel + more) reach pending =
      t.visit ignored tests fuel reach pending := by
  induction fuel generalizing reach pending with
  | zero =>
      have hnil : pending = [] := List.eq_nil_of_length_eq_zero (by omega)
      subst hnil
      cases more <;> rfl
  | succ fuel ih =>
      rw [Nat.succ_add]
      cases pending with
      | nil => rfl
      | cons head pending =>
          obtain ⟨path, importer⟩ := head
          rw [List.length_cons] at hfuel
          rw [PackageTree.visit, PackageTree.visit]
          split
          · exact ih (by omega)
          · rename_i hgo
            simp only [Bool.or_eq_true, SortedSet.contains_iff, not_or] at hgo
            split
            · rfl
            · rfl
            · rename_i p hfound
              have hsorted := sortImports_sorted t ignored path
                { reach with internal := reach.internal.insert path } (importsOf tests p)
              change t.visit ignored tests (fuel + more) (t.sortImports ignored path _ _).1
                (pending ++ (t.sortImports ignored path _ _).2) = t.visit ignored tests fuel
                  (t.sortImports ignored path _ _).1 (pending ++ (t.sortImports ignored path _ _).2)
              generalize t.sortImports ignored path
                { reach with internal := reach.internal.insert path } (importsOf tests p) =
                  result at hsorted ⊢
              have hstep := length_add_remaining_lt pending hgo.2 hfound hsorted
              exact ih (by omega)

theorem visit_eq_reach {seeds : List String} {fuel : Nat}
    (hfuel : seeds.length + t.importCount ≤ fuel) :
    t.visit ignored tests fuel .empty (seeds.map (·, none)) = t.reach seeds ignored tests := by
  obtain ⟨more, rfl⟩ := Nat.exists_eq_add_of_le hfuel
  refine visit_add ?_ more
  rw [List.length_map]
  exact Nat.add_le_add_left (remaining_empty t).le _

/-! ### What is reached -/

theorem reach_isWalkResult (t : PackageTree) (seeds : List String) (ignored : IgnoreRules)
    (tests : Bool) :
    t.IsWalkResult ignored tests {seed | seed ∈ seeds} (t.reach seeds ignored tests) := by
  refine (WalkInvariant.start t ignored tests seeds).visit ?_
  rw [List.length_map]
  exact Nat.add_le_add_left (remaining_empty t).le _

def IsUsable (t : PackageTree) (path : String) : Prop := ∃ p, t.get? path = some (.package p)

/-- A successful walk has the least set and the imports that lead out of it. -/
structure IsReach (t : PackageTree) (ignored : IgnoreRules) (tests : Bool) (seeds : Set String)
    (reach : Reach) : Prop where
  mem_internal : ∀ path, path ∈ reach.internal ↔ t.Reaches ignored tests seeds path
  mem_external : ∀ path, path ∈ reach.external ↔ t.LeadsOut ignored tests seeds path
  usable : ∀ path, t.Reaches ignored tests seeds path → t.IsUsable path

theorem isReach_of_reach_eq_ok {seeds : List String} {reach : Reach}
    (h : t.reach seeds ignored tests = .ok reach) :
    IsReach t ignored tests {seed | seed ∈ seeds} reach := by
  have hspec := reach_isWalkResult t seeds ignored tests
  rw [h] at hspec
  change WalkInvariant t ignored tests _ reach [] at hspec
  refine ⟨fun path => (hspec.reaches_iff path).symm, ?_, fun path hreaches =>
    (hspec.reached path ((hspec.reaches_iff path).mp hreaches)).2⟩
  intro path
  rw [hspec.collected]
  constructor
  · rintro ⟨importer, hin, p, hfound, hmem, houtside⟩
    exact ⟨importer, p, (hspec.reaches_iff importer).mpr hin, hfound, hmem, houtside⟩
  · rintro ⟨importer, p, hreaches, hfound, hmem, houtside⟩
    exact ⟨importer, (hspec.reaches_iff importer).mp hreaches, p, hfound, hmem, houtside⟩

theorem exists_reach_eq_ok_iff {seeds : List String} :
    (∃ reach, t.reach seeds ignored tests = .ok reach) ↔
      ∀ path, t.Reaches ignored tests {seed | seed ∈ seeds} path → t.IsUsable path := by
  constructor
  · rintro ⟨reach, h⟩
    exact (isReach_of_reach_eq_ok h).usable
  · intro husable
    have hspec := reach_isWalkResult t seeds ignored tests
    cases h : t.reach seeds ignored tests with
    | ok reach => exact ⟨reach, rfl⟩
    | error e =>
        rw [h] at hspec
        cases e with
        | missing path importer =>
            obtain ⟨hreaches, hnone, -⟩ := hspec
            obtain ⟨p, hp⟩ := husable path hreaches
            rw [hnone] at hp
            cases hp
        | broken path message =>
            obtain ⟨hreaches, hbroken⟩ := hspec
            obtain ⟨p, hp⟩ := husable path hreaches
            rw [hbroken] at hp
            cases hp

theorem mem_validPackages {path : String} {p : Package} (h : t.get? path = some (.package p)) :
    p ∈ t.validPackages :=
  List.mem_filterMap.mpr ⟨.package p, Table.mem_values_iff.mpr ⟨path, h⟩, rfl⟩

/-- All imports in a tree. -/
def allImports (t : PackageTree) : List String :=
  t.validPackages.flatMap fun p => p.imports ++ p.testImports

theorem length_allImports (t : PackageTree) : t.allImports.length = t.importCount := by
  rw [allImports, List.length_flatMap, importCount]
  simp only [List.length_append]
  rfl

theorem LeadsOut.mem_allImports {path : String} (h : t.LeadsOut ignored tests seeds path) :
    path ∈ t.allImports := by
  obtain ⟨importer, p, -, hfound, hmem, -⟩ := h
  have hsub : importsOf tests p ⊆ p.imports ++ p.testImports := by
    cases tests <;> simp [importsOf]
  exact List.mem_flatMap.mpr ⟨p, mem_validPackages hfound, hsub hmem⟩

theorem length_external_le {seeds : List String} {reach : Reach}
    (h : t.reach seeds ignored tests = .ok reach) :
    reach.external.toList.length ≤ t.importCount := by
  rw [← length_allImports]
  refine ((SortedSet.nodup_toList _).subperm ?_).length_le
  intro path hpath
  exact (((isReach_of_reach_eq_ok h).mem_external path).mp hpath).mem_allImports

theorem length_le_of_forall_isUsable {set : SortedSet String} (h : ∀ path ∈ set, t.IsUsable path) :
    set.toList.length ≤ t.packages.size := by
  have hsub : set.toList ⊆ t.packages.keys := by
    intro path hpath
    obtain ⟨p, hp⟩ := h path hpath
    exact Table.mem_keys_iff.mpr ⟨_, hp⟩
  have hle := ((SortedSet.nodup_toList _).subperm hsub).length_le
  rwa [Table.keys, List.length_map] at hle

end DepSolver.PackageTree
