import DepSolver.Proofs.Search.Constrained
import DepSolver.Proofs.Search.Meeting
import DepSolver.Proofs.Search.Next

/-!
Decisions. Each selects a version of a pending project and meets all that it demands; the candidates
that come before it are given up and leave no trace. Decisions keep the invariants of a search.
-/

namespace DepSolver.Search

variable {source : VersionSource} {p : Parameters} {s s' mid next solved : SearchState}
  {root : ProjectRoot} {version : Version} {work work' : List Demand} {order : List ProjectRoot}
  {n : Nat}

/-- What holds of a state at every moment of a search. -/
structure IsSound (source : VersionSource) (p : Parameters) (s : SearchState)
    (work : List Demand) : Prop where
  explored : IsExplored source p s work
  accounted : IsAccounted s
  satisfied : IsSatisfied p s

theorem IsSound.meets (h : IsSound source p s work) (hmeets : Meets source p n s work s' work') :
    IsSound source p s' work' := by
  induction hmeets with
  | refl => exact h
  | step hmeet hmore _ ih =>
      exact ih ⟨h.explored.meet hmeet hmore, h.accounted.meet hmeet, h.satisfied.meet hmeet⟩

/-- A version of a project is selected, and all demands that arise are met. -/
inductive Selects (source : VersionSource) (p : Parameters) (s : SearchState) (root : ProjectRoot)
    (version : Version) (next : SearchState) : Prop
  | intro {tree : PackageTree} {manifest : Manifest} {mid : SearchState}
      {imports : SortedSet String} {work : List Demand} {n : Nat}
      (htree : source.treeAt root version = .ok tree)
      (hmanifest : source.manifestAt root version = .ok manifest)
      (hselect : s.select p root version tree manifest = .ok (mid, imports))
      (hwork : IsWorkOf source p (some root) imports.toList work)
      (hmeets : Meets source p n mid work next [])

/-- A version of a project was tried without success: it could not be selected, or its demands
could not be met, or the search gave up the state in which they are. -/
def IsGivenUp (source : VersionSource) (p : Parameters)
    (goOn : SearchState → SearchM (Option SearchState)) (s : SearchState) (root : ProjectRoot)
    (version : Version) : Prop :=
  ∃ r tried r', outcome source (trySelect p s root version) r = .ok (tried, r') ∧
    ∀ next, tried = .ok next → ∃ r'', outcome source (goOn next) r' = .ok (none, r'')

/-- A project is the one to decide next. -/
structure IsNext (source : VersionSource) (p : Parameters) (s : SearchState) (root : ProjectRoot) :
    Prop where
  pending : root ∈ s.pending
  isLE : ∀ other ∈ s.pending, (decisionOrder source p root other).isLE

/-- Decisions about projects, in an order, lead from a state to one in which nothing is pending.
Each is about the project that is next, and the candidates before the selected one are given up. -/
inductive Decides (source : VersionSource) (p : Parameters) :
    List ProjectRoot → SearchState → SearchState → Prop
  | done {s : SearchState} (hdone : s.pending = []) : Decides source p [] s s
  | step {order : List ProjectRoot} {s mid solved : SearchState} {root : ProjectRoot}
      {version : Version} {listed before after : List Version} (hnext : IsNext source p s root)
      (hversions : source.versionsOf root = .ok listed)
      (hsplit : s.candidates p root listed = before ++ version :: after)
      (hbefore : ∀ v ∈ before, ∃ limit, IsGivenUp source p (explore p limit) s root v)
      (hselects : Selects source p s root version mid)
      (hrest : Decides source p order mid solved) : Decides source p (root :: order) s solved

theorem satisfiedBy_of_mem_candidates {listed : List Version}
    (h : version ∈ s.candidates p root listed) :
    (s.constraintOn p root).satisfiedBy version = true := by
  rw [SearchState.candidates] at h
  split at h
  · rename_i pinned hpinned
    rcases List.mem_cons.mp h with rfl | h
    · exact (Option.filter_eq_some_iff.mp hpinned).2
    · have hkept := (List.mem_filter.mp h).2
      rw [Bool.and_eq_true] at hkept
      exact hkept.1
  · exact (List.mem_filter.mp h).2

theorem IsSound.selects (h : IsSound source p s []) {listed : List Version}
    (hpending : root ∈ s.pending) (hversions : source.versionsOf root = .ok listed)
    (hsatisfied : (s.constraintOn p root).satisfiedBy version = true)
    (hselects : Selects source p s root version next) : IsSound source p next [] := by
  obtain ⟨htree, hmanifest, hselect, hwork, hmeets⟩ := hselects
  refine IsSound.meets ⟨?_, ?_, ?_⟩ hmeets
  · exact h.explored.select hpending ⟨listed, hversions⟩ htree hmanifest hselect hwork
  · exact h.accounted.select (fun _ _ => h.explored.version?_of_relates_imports) hpending hselect
  · exact h.satisfied.select hsatisfied hselect

theorem mem_or_eq_of_mem_candidates {listed : List Version}
    (h : version ∈ s.candidates p root listed) :
    version ∈ listed ∨ p.lockedVersion? root = some version := by
  rw [SearchState.candidates] at h
  split at h
  · rename_i pinned hpinned
    rcases List.mem_cons.mp h with rfl | h
    · exact .inr (Option.filter_eq_some_iff.mp hpinned).1
    · exact .inl (List.mem_filter.mp h).1
  · exact .inl (List.mem_filter.mp h).1

theorem length_candidates_le (s : SearchState) (p : Parameters) (root : ProjectRoot)
    (listed : List Version) : (s.candidates p root listed).length ≤ listed.length + 1 := by
  rw [SearchState.candidates]
  split
  · rw [List.length_cons]
    exact Nat.succ_le_succ (List.length_filter_le _ _)
  · exact Nat.le_succ_of_le (List.length_filter_le _ _)

theorem mem_of_split {candidates before after : List Version}
    (h : candidates = before ++ version :: after) : version ∈ candidates := by
  simp [h]

theorem IsSound.decides (h : IsSound source p s []) (hdecides : Decides source p order s solved) :
    IsSound source p solved [] := by
  induction hdecides with
  | done => exact h
  | step hnext hversions hsplit _ hselects _ ih =>
      exact ih (h.selects hnext.pending hversions
        (satisfiedBy_of_mem_candidates (mem_of_split hsplit)) hselects)

theorem Decides.pending_eq_nil (h : Decides source p order s solved) : solved.pending = [] := by
  induction h with
  | done hdone => exact hdone
  | step _ _ _ _ _ _ ih => exact ih

/-! ### What decisions select -/

theorem Meets.version?_eq (h : Meets source p n s work s' work') : s'.version? = s.version? := by
  induction h with
  | refl => rfl
  | step hmeet _ _ ih => rw [ih, SearchState.version?_of_meet hmeet]

theorem Selects.version?_eq (h : Selects source p s root version next) :
    next.version? = Function.update s.version? root (some version) := by
  obtain ⟨-, -, hselect, -, hmeets⟩ := h
  rw [hmeets.version?_eq, SearchState.version?_of_select hselect]

theorem Selects.version?_self (h : Selects source p s root version next) :
    next.version? root = some version := by
  rw [h.version?_eq, Function.update_self]

theorem Decides.exists_candidate (h : Decides source p order s solved)
    (hversion : solved.version? root = some version) :
    s.version? root = some version ∨ ∃ (t : SearchState) (listed : List Version),
      source.versionsOf root = .ok listed ∧ version ∈ t.candidates p root listed := by
  induction h with
  | done => exact .inl hversion
  | step hnext hversions hsplit _ hselects _ ih =>
      rcases ih hversion with hmid | hcandidate
      · rw [hselects.version?_eq, Function.update_apply] at hmid
        split at hmid
        · rename_i heq
          cases hmid
          subst heq
          exact .inr ⟨_, _, hversions, mem_of_split hsplit⟩
        · exact .inl hmid
      · exact .inr hcandidate

theorem Meets.size_eq (h : Meets source p n s work s' work') :
    s'.selected.size = s.selected.size := by
  induction h with
  | refl => rfl
  | step hmeet _ _ ih =>
      rw [ih]
      rcases SearchState.meet_eq_ok hmeet with ⟨-, rfl, -⟩ | ⟨x, hx, -, reach, -, rfl, -⟩
      · rfl
      · exact Table.size_insert_of_contains (Table.contains_iff.mpr ⟨x, hx⟩) _

theorem Selects.size_eq (h : Selects source p s root version next) (hpending : root ∈ s.pending) :
    next.selected.size = s.selected.size + 1 := by
  obtain ⟨-, -, hselect, -, hmeets⟩ := h
  obtain ⟨reach, -, rfl, -⟩ := SearchState.select_eq_ok hselect
  rw [hmeets.size_eq]
  apply Table.size_insert_of_not_contains
  exact Table.contains_eq_false_iff.mpr (SearchState.mem_pending_iff.mp hpending).2

theorem Decides.size_eq (h : Decides source p order s solved) :
    solved.selected.size = s.selected.size + order.length := by
  induction h with
  | done => rfl
  | step hnext _ _ _ hselects _ ih =>
      rw [ih, hselects.size_eq hnext.pending, List.length_cons]
      omega

end DepSolver.Search
