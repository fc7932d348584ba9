import DepSolver.Proofs.Search.Explored
import DepSolver.Search.Solver

/-!
Meeting demands until none is left. The demands that can still arise become fewer with each that is
met, so that the bound on their number is never hit.
-/

namespace DepSolver.Search

variable {source : VersionSource} {p : Parameters} {s s' : SearchState} {d : Demand}
  {imports : SortedSet String} {work work' more : List Demand} {r : SearchRecord} {n : Nat}

/-- Meeting a number of demands, with those that arise from them, leads from a state to another one
and to the demands that then wait. -/
inductive Meets (source : VersionSource) (p : Parameters) :
    Nat → SearchState → List Demand → SearchState → List Demand → Prop
  | refl (s : SearchState) (work : List Demand) : Meets source p 0 s work s work
  | step {n : Nat} {s mid s' : SearchState} {d : Demand} {work more work' : List Demand}
      {imports : SortedSet String} (hmeet : s.meet p d = .ok (mid, imports))
      (hmore : IsWorkOf source p (some d.target) imports.toList more)
      (hrest : Meets source p n mid (work ++ more) s' work') :
      Meets source p (n + 1) s (d :: work) s' work'

/-- What meeting demands comes to: all are met, or one of those that wait at some point is in
conflict, leads to an import that has no project, or is beyond the bound. -/
inductive IsExpandOutcome (source : VersionSource) (p : Parameters) (fuel : Nat) (s : SearchState)
    (work : List Demand) (r : SearchRecord) :
    Except SolveError (Except ProjectConflict SearchState × SearchRecord) → Prop
  | met {n : Nat} {next : SearchState} (hmeets : Meets source p n s work next []) :
      IsExpandOutcome source p fuel s work r (.ok (.ok next, r))
  | conflict {n : Nat} {mid : SearchState} {d : Demand} {rest : List Demand} {c : ProjectConflict}
      (hmeets : Meets source p n s work mid (d :: rest)) (hmeet : mid.meet p d = .error c) :
      IsExpandOutcome source p fuel s work r (.ok (.error c, r))
  | unresolved {n : Nat} {mid next : SearchState} {d : Demand} {rest : List Demand}
      {imports : SortedSet String} {path : String} {e : SourceError}
      (hmeets : Meets source p n s work mid (d :: rest))
      (hmeet : mid.meet p d = .ok (next, imports)) (hpath : path ∈ imports)
      (hlook : p.LooksUp source (some d.target) path) (hroot : source.rootOf path = .error e) :
      IsExpandOutcome source p fuel s work r (.error (.source e))
  | exhausted {mid : SearchState} {d : Demand} {rest : List Demand}
      (hmeets : Meets source p fuel s work mid (d :: rest)) :
      IsExpandOutcome source p fuel s work r (.error .limitReached)

theorem IsExpandOutcome.step {fuel : Nat} {mid : SearchState}
    {o : Except SolveError (Except ProjectConflict SearchState × SearchRecord)}
    (h : IsExpandOutcome source p fuel mid (work ++ more) r o)
    (hmeet : s.meet p d = .ok (mid, imports))
    (hmore : IsWorkOf source p (some d.target) imports.toList more) :
    IsExpandOutcome source p (fuel + 1) s (d :: work) r o := by
  cases h with
  | met hmeets => exact .met (.step hmeet hmore hmeets)
  | conflict hmeets hconflict => exact .conflict (.step hmeet hmore hmeets) hconflict
  | unresolved hmeets hnext hpath hlook hroot =>
      exact .unresolved (.step hmeet hmore hmeets) hnext hpath hlook hroot
  | exhausted hmeets => exact .exhausted (.step hmeet hmore hmeets)

theorem outcome_expand (source : VersionSource) (p : Parameters) (fuel : Nat) (s :
    SearchState)
    (work : List Demand) (r : SearchRecord) :
    IsExpandOutcome source p fuel s work r (outcome source (expand p fuel s work) r) := by
  induction fuel generalizing s work with
  | zero =>
      cases work with
      | nil => exact .met (.refl s [])
      | cons d work => exact .exhausted (.refl s (d :: work))
  | succ fuel ih =>
      cases work with
      | nil => exact .met (.refl s [])
      | cons d work =>
          rw [expand]
          cases hmeet : s.meet p d with
          | error c => exact .conflict (.refl s (d :: work)) hmeet
          | ok result =>
              obtain ⟨mid, imports⟩ := result
              dsimp only
              rw [outcome_bind]
              rcases @outcome_demands source p (some d.target) imports r with
                ⟨more, hwork, hmore⟩ | ⟨path, hpath, e, hlook, hroot, herror⟩
              · rw [hwork]
                exact (ih mid (work ++ more)).step hmeet hmore
              · rw [herror]
                exact .unresolved (.refl s (d :: work)) hmeet hpath hlook hroot

theorem outcome_expand_add {fuel : Nat}
    (hne : outcome source (expand p fuel s work) r ≠ .error .limitReached) (extra : Nat) :
    outcome source (expand p (fuel + extra) s work) r =
      outcome source (expand p fuel s work) r := by
  induction fuel generalizing s work r with
  | zero =>
      cases work with
      | nil => cases extra <;> rfl
      | cons d work => exact absurd rfl hne
  | succ fuel ih =>
      cases work with
      | nil => rw [Nat.succ_add]; rfl
      | cons d work =>
          rw [Nat.succ_add]
          rw [expand] at hne ⊢
          rw [expand]
          cases hmeet : s.meet p d with
          | error c => rfl
          | ok result =>
              obtain ⟨mid, imports⟩ := result
              rw [hmeet] at hne
              dsimp only at hne ⊢
              rw [outcome_bind] at hne ⊢
              rw [outcome_bind]
              cases hdemands : outcome source (demands p (some d.target) imports) r with
              | error e => rfl
              | ok found =>
                  rw [hdemands] at hne
                  exact ih hne

/-! ### The bound on the demands -/

/-- The packages of a selected version that are not used yet, counted with all imports of the
version. -/
def unused (x : Selection) : Nat :=
  (x.tree.packages.size - x.packages.toList.length) * x.tree.importCount

/-- A bound on the demands that can still arise among the selected versions. -/
def slack (s : SearchState) : Nat := (s.selected.values.map unused).sum

private theorem slack_le_room (s : SearchState) : slack s ≤ s.room := by
  rw [slack, SearchState.room]
  apply List.sum_le_sum
  intro x _
  exact Nat.mul_le_mul_right _ (Nat.sub_le _ _)

private theorem unused_add_importCount_le {x : Selection} {packages : SortedSet String} {path :
    String}
    (hsub : ∀ q ∈ x.packages, q ∈ packages) (hpath : path ∈ packages) (hnew : path ∉ x.packages)
    (husable : ∀ q ∈ packages, x.tree.IsUsable q) :
    unused { x with packages } + x.tree.importCount ≤ unused x := by
  have hmore : x.packages.toList.length + 1 ≤ packages.toList.length := by
    have hnodup : (path :: x.packages.toList).Nodup :=
      List.nodup_cons.mpr ⟨hnew, x.packages.nodup_toList⟩
    refine (hnodup.subperm ?_).length_le
    exact List.cons_subset.mpr ⟨hpath, hsub⟩
  have hbound := PackageTree.length_le_of_forall_isUsable husable
  calc unused { x with packages } + x.tree.importCount
      = (x.tree.packages.size - packages.toList.length + 1) * x.tree.importCount := by
        rw [unused, Nat.add_mul, Nat.one_mul]
    _ ≤ unused x := Nat.mul_le_mul_right _ (by omega)

theorem IsExplored.exists_fresh_or_eq_empty (h : IsExplored source p s (d :: work)) {x : Selection}
    {reach : Reach}
    (hreach : x.tree.reach (d.packages.diff x.packages).toList p.ignored false = .ok reach) :
    (∃ path ∈ reach.internal, path ∉ x.packages) ∨ reach = .empty := by
  by_cases hfresh : ∃ path, path ∈ d.packages.diff x.packages
  · obtain ⟨path, hpath⟩ := hfresh
    obtain ⟨hdemanded, hnew⟩ := SortedSet.mem_diff.mp hpath
    have hspec := PackageTree.isReach_of_reach_eq_ok hreach
    have hlook := ((h.due d List.mem_cons_self).demanded path hdemanded).looksUp
    exact .inl ⟨path,
      (hspec.mem_internal path).mpr (.seed hpath hlook.ignores_eq_false), hnew⟩
  · have hempty : d.packages.diff x.packages = .empty := SortedSet.ext fun path => by
      simpa using not_exists.mp hfresh path
    rw [hempty] at hreach
    exact .inr (Except.ok.inj (hreach.symm.trans (SearchState.reach_nil _ _ _)))

theorem IsExplored.length_add_unused_le (h : IsExplored source p s (d :: work)) {x : Selection}
    {reach : Reach} (hx : s.selected.get? d.target = some x)
    (hreach : x.tree.reach (d.packages.diff x.packages).toList p.ignored false = .ok reach)
    (hmore : IsWorkOf source p (some d.target) reach.external.toList more) :
    more.length + unused { x with packages := x.packages.union reach.internal } ≤ unused x := by
  rcases h.exists_fresh_or_eq_empty hreach with ⟨path, hin, hnew⟩ | rfl
  · have hle := @unused_add_importCount_le x (x.packages.union reach.internal) path
      (fun q hq => SortedSet.mem_union.mpr (.inl hq)) (SortedSet.mem_union.mpr (.inr hin)) hnew
      (((h.selection d.target x hx).extend hreach hmore).usable)
    have hlength := hmore.length_le.trans (PackageTree.length_external_le hreach)
    omega
  · have hpackages : x.packages.union .empty = x.packages := SortedSet.ext fun path => by simp
    rw [hmore.eq_nil]
    simp [Reach.empty, hpackages]

/-- A selected project comes to use more of the packages that its tree has, and no other selection
changes. -/
inductive UsesMore (s s' : SearchState) (root : ProjectRoot) : Prop
  | intro {x : Selection} {packages : SortedSet String} (hbefore : s.selected.get? root = some x)
      (hafter : s'.selected = s.selected.insert root { x with packages })
      (hsub : ∀ path ∈ x.packages, path ∈ packages) (hnew : ∃ path ∈ packages, path ∉ x.packages)
      (hkeys : packages.toList ⊆ x.tree.packages.keys) : UsesMore s s' root

theorem IsExplored.eq_nil_or_usesMore (h : IsExplored source p s (d :: work))
    (hmeet : s.meet p d = .ok (s', imports))
    (hmore : IsWorkOf source p (some d.target) imports.toList more) :
    more = [] ∨ UsesMore s s' d.target := by
  rcases SearchState.meet_eq_ok hmeet with ⟨-, -, rfl⟩ | ⟨x, hx, -, reach, hreach, rfl, rfl⟩
  · exact .inl hmore.eq_nil
  · rcases h.exists_fresh_or_eq_empty hreach with ⟨path, hin, hnew⟩ | rfl
    · refine .inr (.intro hx rfl (fun q hq => SortedSet.mem_union.mpr (.inl hq))
        ⟨path, SortedSet.mem_union.mpr (.inr hin), hnew⟩ ?_)
      intro q hq
      obtain ⟨package, hpackage⟩ := ((h.selection d.target x hx).extend hreach hmore).usable q hq
      exact Table.mem_keys_iff.mpr ⟨_, hpackage⟩
    · exact .inl hmore.eq_nil

/-- With each demand that is met, those that wait and those that can still arise become fewer. -/
theorem IsExplored.length_add_slack_lt (h : IsExplored source p s (d :: work))
    (hmeet : s.meet p d = .ok (s', imports))
    (hmore : IsWorkOf source p (some d.target) imports.toList more) :
    (work ++ more).length + slack s' < (d :: work).length + slack s := by
  rw [List.length_append, List.length_cons]
  rcases SearchState.meet_eq_ok hmeet with ⟨-, rfl, rfl⟩ | ⟨x, hx, -, reach, hreach, rfl, rfl⟩
  · have hslack : slack (s.record d) = slack s := rfl
    rw [hmore.eq_nil, hslack, List.length_nil]
    omega
  · have hsum := Table.sum_values_insert (f := unused) hx
      { x with packages := x.packages.union reach.internal }
    have hle := h.length_add_unused_le hx hreach hmore
    change slack (s.put _ _) + _ = slack s + _ at hsum
    change _ + slack (s.put _ _) < _
    omega

theorem IsExplored.add_slack_le (h : IsExplored source p s work)
    (hmeets : Meets source p n s work s' work') :
    n + (work'.length + slack s') ≤ work.length + slack s := by
  induction hmeets with
  | refl => omega
  | step hmeet hmore _ ih =>
      have hlt := h.length_add_slack_lt hmeet hmore
      have hrest := ih (h.meet hmeet hmore)
      omega

theorem outcome_meetAll (source : VersionSource) (p : Parameters) (s : SearchState)
    (work : List Demand) (r : SearchRecord) :
    IsExpandOutcome source p (work.length + s.room) s work r
      (outcome source (meetAll p s work) r) :=
  outcome_expand source p (work.length + s.room) s work r

theorem IsExplored.outcome_meetAll_ne (h : IsExplored source p s work) (r : SearchRecord) :
    outcome source (meetAll p s work) r ≠ .error .limitReached := by
  intro hlimit
  have hspec := outcome_meetAll source p s work r
  rw [hlimit] at hspec
  cases hspec with
  | exhausted hmeets =>
      have hle := h.add_slack_le hmeets
      have hroom := slack_le_room s
      rw [List.length_cons] at hle
      omega

end DepSolver.Search
