import DepSolver.Proofs.Constraint
import DepSolver.Proofs.Search.Demand

/-!
The answers of a source in memory: what it lists for a project, the release that it serves of a
version, and the project that it takes a path to.
-/

namespace DepSolver

namespace Version

theorem sameName_comm (v w : Version) : v.sameName w = w.sameName v := by
  cases v <;> cases w <;> simp [sameName, underlying, eq_comm]

theorem sameRelease_comm (v w : Version) : v.sameRelease w = w.sameRelease v := by
  rw [sameRelease, sameRelease, sameName_comm]
  cases v.underlying <;> cases w.underlying <;> simp [eq_comm]

end Version

namespace MemorySource

variable {m : MemorySource} {root : ProjectRoot} {version v w : Version} {releases : List Release}

theorem get?_projects_of_releases (h : m.releases root = .ok releases) :
    m.projects.get? root = some releases := by
  rw [MemorySource.releases] at h
  split at h
  · cases h
  · split at h
    · rename_i found hfound
      cases h
      exact hfound
    · cases h

theorem versionsOf_answer_eq_ok {listed : List Version} :
    m.answer.versionsOf root = .ok listed ↔
      ∃ releases, m.releases root = .ok releases ∧ releases.map (·.version) = listed := by
  change (m.releases root).map _ = .ok listed ↔ _
  cases m.releases root <;> simp [Except.map]

theorem mem_releases_of_release {r : Release} (h : m.release root version = .ok r) :
    ∃ releases, m.releases root = .ok releases ∧ r ∈ releases ∧
      r.version.sameRelease version = true := by
  rw [release] at h
  cases hreleases : m.releases root with
  | error e =>
      rw [hreleases] at h
      cases h
  | ok releases =>
      rw [hreleases] at h
      dsimp only at h
      split at h
      · rename_i found hfound
        obtain rfl : found = r := Except.ok.inj h
        have hsame : found.version.sameRelease version = true := by
          simpa using List.find?_some hfound
        exact ⟨releases, rfl, List.mem_of_find?_eq_some hfound, hsame⟩
      · cases h

theorem treeAt_answer_eq_ok {tree : PackageTree} :
    m.answer.treeAt root version = .ok tree ↔
      ∃ r, m.release root version = .ok r ∧ r.tree = tree := by
  change (m.release root version).map _ = .ok tree ↔ _
  cases m.release root version <;> simp [Except.map]

theorem manifestAt_answer_eq_ok {manifest : Manifest} :
    m.answer.manifestAt root version = .ok manifest ↔
      ∃ r, m.release root version = .ok r ∧ r.manifest = manifest := by
  change (m.release root version).map _ = .ok manifest ↔ _
  cases m.release root version <;> simp [Except.map]

theorem exists_longer (best : Option ProjectRoot) (root : ProjectRoot) :
    ∃ x, longer best root = some x ∧ root.path.length ≤ x.path.length ∧
      ∀ b, best = some b → b.path.length ≤ x.path.length := by
  cases best with
  | none => exact ⟨root, rfl, Nat.le_refl _, by simp⟩
  | some b =>
      rw [longer]
      split
      · rename_i hle
        exact ⟨root, rfl, Nat.le_refl _, fun _ hb => Option.some.inj hb ▸ hle⟩
      · rename_i hlt
        exact ⟨b, rfl, Nat.le_of_not_le hlt, fun _ hb => Option.some.inj hb ▸ Nat.le_refl _⟩

theorem exists_foldl_longer {l : List ProjectRoot} {best : Option ProjectRoot}
    (h : best = some root ∨ root ∈ l) :
    ∃ x, l.foldl longer best = some x ∧ root.path.length ≤ x.path.length := by
  induction l generalizing best root with
  | nil => exact ⟨root, h.resolve_right List.not_mem_nil, Nat.le_refl _⟩
  | cons first l ih =>
      obtain ⟨x, hx, hfirst, hbest⟩ := exists_longer best first
      rw [List.foldl_cons, hx]
      by_cases hrest : root ∈ l
      · exact ih (.inr hrest)
      · have hle : root.path.length ≤ x.path.length := by
          rcases h with hroot | hmem
          · exact hbest root hroot
          · rw [(List.mem_cons.mp hmem).resolve_right hrest]
            exact hfirst
        obtain ⟨y, hy, hxy⟩ := @ih x _ (.inl rfl)
        exact ⟨y, hy, hle.trans hxy⟩

theorem length_le_length_rootOf {path : String} (hroot : root ∈ m.projects.keys)
    (hcontains : root.contains path = true) :
    root.path.length ≤ (m.rootOf path).path.length := by
  have hmem : root ∈ m.projects.keys.filter (·.contains path) :=
    List.mem_filter.mpr ⟨hroot, hcontains⟩
  obtain ⟨x, hx, hle⟩ := exists_foldl_longer (.inr hmem)
  rw [rootOf, hx]
  exact hle

end MemorySource

end DepSolver
