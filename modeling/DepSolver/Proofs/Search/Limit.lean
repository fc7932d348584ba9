import DepSolver.Proofs.Search.Completeness
import DepSolver.Proofs.Source
import DepSolver.Search.Session

/-!
The limit on the decisions of a search. On a source in memory it is never reached: every project
that is needed owns an import that the parameters or a release mention, and one import does not
belong to two projects.
-/

namespace DepSolver

namespace Search

variable {source : VersionSource} {p : Parameters} {s : SearchState} {root : ProjectRoot}
  {version : Version} {limit bound : Nat}

theorem IsSound.outcome_trySelect_ne (h : IsSound source p s []) (hpending : root ∈ s.pending)
    {listed : List Version} (hversions : source.versionsOf root = .ok listed) (r : SearchRecord) :
    outcome source (trySelect p s root version) r ≠ .error .limitReached := by
  intro hlimit
  have hspec := Search.outcome_trySelect source p s root version r
  rw [hlimit] at hspec
  cases hspec with
  | exhausted htree hmanifest hselect hwork hmeet =>
      have hmid := h.explored.select hpending ⟨listed, hversions⟩ htree hmanifest hselect hwork
      exact hmid.outcome_meetAll_ne r hmeet

theorem IsSound.outcome_explore_ne (h : IsSound source p s [])
    (hbound : ∀ t, IsSound source p t [] → t.pending ≠ [] → t.selected.size < bound)
    (hlimit : bound ≤ s.selected.size + limit) (r : SearchRecord) :
    outcome source (explore p limit s) r ≠ .error .limitReached := by
  induction limit using Nat.strongRecOn generalizing s r with
  | ind limit ih =>
      intro hreached
      have hspec := Search.outcome_explore source p limit s r
      generalize outcome source (explore p limit s) r = o at hreached hspec
      cases hspec with
      | finished hdone => cases hreached
      | failed hpending hversions => cases hreached
      | limited hpending =>
          have hlt := hbound s h (List.ne_nil_of_mem hpending)
          omega
      | @decided limit root hnext =>
          have hdecide := outcome_decideNext source p limit s root r
          rw [hreached] at hdecide
          cases hdecide with
          | failed hversions hmem htry =>
              exact h.outcome_trySelect_ne hnext.pending hversions _ htry
          | failedAfter hversions hmem hselects hgo =>
              have hsize := hselects.size_eq hnext.pending
              exact ih limit (Nat.lt_succ_self limit)
                (h.selects hnext.pending hversions (satisfiedBy_of_mem_candidates hmem) hselects)
                (by omega) _ hgo

end Search

namespace MemorySource

variable {m : MemorySource} {p : Parameters} {σ : Assignment}

/-- The import paths that the parameters or a release mention. -/
def mentioned (m : MemorySource) (p : Parameters) : List String :=
  (p.required.toList ++ p.rootTree.allImports) ++
    m.projects.values.flatten.flatMap (·.tree.allImports)

theorem length_mentioned (m : MemorySource) (p : Parameters) :
    (m.mentioned p).length = m.searchLimit p := by
  rw [mentioned, List.length_append, List.length_append, PackageTree.length_allImports,
    List.length_flatMap, searchLimit, Parameters.importCount]
  simp only [PackageTree.length_allImports]
  rfl

private theorem mem_mentioned {importer : Option ProjectRoot} {path : String}
    (h : Demanded m.answer p σ importer path) : path ∈ m.mentioned p := by
  cases h with
  | own himport hlook =>
      apply List.mem_append_left
      rcases himport with hleads | ⟨hrequired, -⟩
      · exact List.mem_append_right _ hleads.mem_allImports
      · exact List.mem_append_left _ hrequired
  | imported _ _ _ htree himport _ =>
      obtain ⟨release, hrelease, rfl⟩ := treeAt_answer_eq_ok.mp htree
      obtain ⟨releases, hreleases, hmem, -⟩ := mem_releases_of_release hrelease
      have hvalues : releases ∈ m.projects.values :=
        Table.mem_values_iff.mpr ⟨_, get?_projects_of_releases hreleases⟩
      apply List.mem_append_right
      exact List.mem_flatMap.mpr
        ⟨release, List.mem_flatten.mpr ⟨releases, hvalues, hmem⟩, himport.mem_allImports⟩

/-! ### A limit on the passes -/

/-- More than twice the candidates that any decision has. -/
def branching (m : MemorySource) : Nat := 2 * m.projects.values.flatten.length + 4

/-- A number of passes after which every search is at its end. -/
def passLimit (m : MemorySource) (p : Parameters) : Nat := m.branching ^ (m.searchLimit p + 1) + 1

theorem branching_pow_pos (m : MemorySource) (k : Nat) : 0 < m.branching ^ k := by
  apply Nat.pow_pos
  rw [branching]
  omega

theorem two_mul_length_candidates_lt (m : MemorySource) {s : SearchState} {p : Parameters}
    {root : ProjectRoot} {listed : List Version} (h : m.answer.versionsOf root = .ok listed) :
    2 * (s.candidates p root listed).length + 1 < m.branching := by
  obtain ⟨releases, hreleases, rfl⟩ := versionsOf_answer_eq_ok.mp h
  have hvalues : releases ∈ m.projects.values :=
    Table.mem_values_iff.mpr ⟨root, get?_projects_of_releases hreleases⟩
  have hle : releases.length ≤ m.projects.values.flatten.length := by
    rw [List.length_flatten]
    exact List.le_sum_of_mem (List.mem_map_of_mem hvalues)
  have hcandidates := Search.length_candidates_le s p root (releases.map (·.version))
  rw [List.length_map] at hcandidates
  rw [branching]
  omega

end MemorySource

namespace Search

variable {m : MemorySource} {p : Parameters} {s : SearchState}

theorem IsExplored.keys_required_subset {work : List Demand} (h : IsExplored m.answer p s work) :
    s.required.keys ⊆ (m.mentioned p).map m.rootOf := by
  intro root hroot
  obtain ⟨set, hset⟩ := Table.mem_keys_iff.mp hroot
  obtain ⟨path, hneeded⟩ := h.requiredProper.exists_relates hset
  obtain ⟨importer, hdemanded, howner⟩ := h.required root hneeded
  exact List.mem_map.mpr ⟨path, MemorySource.mem_mentioned hdemanded, Except.ok.inj howner⟩

theorem IsExplored.size_required_le {work : List Demand} (h : IsExplored m.answer p s work) :
    s.required.size ≤ m.searchLimit p := by
  have hle := (s.required.nodup_keys.subperm h.keys_required_subset).length_le
  rwa [List.length_map, m.length_mentioned, Table.keys, List.length_map] at hle

theorem IsSound.size_lt_searchLimit (h : IsSound m.answer p s []) (hpending : s.pending ≠ []) :
    s.selected.size < m.searchLimit p := by
  obtain ⟨root, hroot⟩ := List.exists_mem_of_ne_nil _ hpending
  obtain ⟨hrequired, hnone⟩ := SearchState.mem_pending_iff.mp hroot
  refine (Table.size_lt_of_keys_subset ?_ hrequired ?_).trans_le h.explored.size_required_le
  · intro root' hmem
    obtain ⟨x, hx⟩ := Table.mem_keys_iff.mp hmem
    exact (h.explored.selection root' x hx).required
  · rw [Table.mem_keys_iff, hnone]
    simp

end Search

end DepSolver
