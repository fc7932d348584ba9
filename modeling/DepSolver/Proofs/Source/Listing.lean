import DepSolver.Proofs.Sorting
import DepSolver.Proofs.Source
import DepSolver.Proofs.Version

/-!
What a source in memory lists after its releases were registered: each version of a project once, in
the order of upgrades, with the release that was registered last for it. The order in which the
versions were registered does not show.
-/

namespace DepSolver.MemorySource

open Version (upgradeOrder)

/-- A call that registers a release of a project. -/
inductive Registration
  | release (root : ProjectRoot) (r : Release)
  /-- A release whose only package is at the root of the project. -/
  | package (root : ProjectRoot) (version : Version) (imports : List String) (manifest : Manifest)

namespace Registration

def root : Registration → ProjectRoot
  | release root _ | package root _ _ _ => root

/-- The release that a call registers. -/
def released : Registration → Release
  | release _ r => r
  | package root version imports manifest =>
      ⟨version, singlePackageTree root imports, manifest⟩

end Registration

def register (m : MemorySource) : Registration → MemorySource
  | .release root r => m.addRelease root r
  | .package root version imports manifest => m.addPackageRelease root version imports manifest

/-- A new source after some calls. -/
def ofRegistrations (calls : List Registration) : MemorySource := calls.foldl register .empty

/-- The releases that calls register for a project, the last call last. -/
def registered (calls : List Registration) (root : ProjectRoot) : List Release :=
  (calls.filter (·.root = root)).map (·.released)

/-- The last of some releases that has a version. -/
def last? (l : List Release) (v : Version) : Option Release :=
  (l.filter (·.version = v)).getLast?

/-- A list of versions as a source gives it: without repetitions, by kinds, and of releases as of
prereleases the newest first. -/
structure IsListing (listed : List Version) : Prop where
  ascending : listed.Pairwise fun v w => upgradeOrder v w = .lt
  nodup : listed.Nodup
  /-- Releases come first, then prereleases, branches, tags and revisions. -/
  kinds : listed.Pairwise fun v w => v.rank ≤ w.rank
  newest : listed.Pairwise fun v w => ∀ x s r y t r', v = .semver x s r → w = .semver y t r' →
    x.isPrerelease = y.isPrerelease → (compare y x).isLE

variable {calls calls' : List Registration} {root : ProjectRoot} {l releases : List Release}
  {r : Release} {v w : Version}

private theorem register_eq (m : MemorySource) (c : Registration) :
    m.register c = m.addRelease c.root c.released := by
  cases c <;> rfl

/-! ### The releases of one project -/

/-- Put a release among others, in place of one of the same version. -/
def put (releases : List Release) (r : Release) : List Release :=
  Sorting.sort (Order.through Release.version upgradeOrder)
    (releases.filter (·.version ≠ r.version) ++ [r])

/-- The releases of a project, in the order of upgrades: those registered last of each version. -/
structure IsStock (l releases : List Release) : Prop where
  ascending : releases.Pairwise fun x y => upgradeOrder x.version y.version = .lt
  mem_iff : ∀ r, r ∈ releases ↔ last? l r.version = some r

private theorem last?_concat : last? (l ++ [r]) v = if r.version = v then some r else last? l v
    := by
  rw [last?, List.filter_append, List.getLast?_append]
  split <;> simp_all [last?]

private theorem isStock_nil : IsStock [] [] := ⟨.nil, by simp [last?]⟩

theorem IsStock.ascending_map (h : IsStock l releases) :
    (releases.map (·.version)).Pairwise fun v w => upgradeOrder v w = .lt :=
  List.pairwise_map.mpr h.ascending

theorem IsStock.put (h : IsStock l releases) (r : Release) :
    IsStock (l ++ [r]) (put releases r) := by
  refine ⟨Sorting.pairwise_lt_of_ne
    (@Sorting.sort_pairwise _ (Order.through Release.version upgradeOrder) _ _) ?_, fun x => ?_⟩
  · have hne : (releases.filter (·.version ≠ r.version) ++ [r]).Pairwise fun x y =>
        x.version ≠ y.version := by
      refine List.pairwise_append.mpr ⟨?_, List.pairwise_singleton _ _, by simp⟩
      exact (List.pairwise_map.mp (Sorting.nodup_of_pairwise_lt h.ascending_map)).filter _
    exact (Sorting.sort_perm _ _).symm.pairwise hne fun hxy => Ne.symm hxy
  · rw [MemorySource.put, Sorting.mem_sort, List.mem_append, List.mem_filter, h.mem_iff,
      last?_concat]
    by_cases hversion : r.version = x.version
    · simp [hversion, eq_comm]
    · have hx : x ≠ r := fun heq => hversion (heq ▸ rfl)
      simp [hversion, hx, Ne.symm hversion]

private theorem isStock_foldl_put (h : IsStock l releases) (added : List Release) :
    IsStock (l ++ added) (added.foldl put releases) := by
  induction added generalizing l releases with
  | nil => simpa using h
  | cons r added ih =>
      have hnext := ih (h.put r)
      rwa [List.append_assoc] at hnext

theorem exists_last?_iff : (∃ r, last? l v = some r ∧ r.version = v) ↔ v ∈ l.map (·.version) := by
  rw [List.mem_map, last?]
  constructor
  · rintro ⟨r, hr, hversion⟩
    exact ⟨r, (List.mem_filter.mp (List.mem_of_getLast? hr)).1, hversion⟩
  · rintro ⟨r, hr, hversion⟩
    have hmem : r ∈ l.filter (·.version = v) := List.mem_filter.mpr ⟨hr, by simpa using hversion⟩
    cases hlast : (l.filter (·.version = v)).getLast? with
    | none => simp [List.getLast?_eq_none_iff.mp hlast] at hmem
    | some x =>
        have hx := (List.mem_filter.mp (List.mem_of_getLast? hlast)).2
        exact ⟨x, rfl, by simpa using hx⟩

theorem IsStock.mem_map_version (h : IsStock l releases) :
    v ∈ releases.map (·.version) ↔ v ∈ l.map (·.version) := by
  rw [List.mem_map, ← exists_last?_iff (l := l)]
  refine exists_congr fun r => ?_
  rw [h.mem_iff]
  constructor
  · rintro ⟨hr, rfl⟩
    exact ⟨hr, rfl⟩
  · rintro ⟨hr, rfl⟩
    exact ⟨hr, rfl⟩

private theorem rank_le_of_upgradeOrder (h : upgradeOrder v w = .lt) : v.rank ≤ w.rank := by
  rw [upgradeOrder, Ordering.then_eq_lt] at h
  rcases h with hlt | ⟨heq, -⟩
  · exact (Nat.compare_eq_lt.mp hlt).le
  · exact (Nat.compare_eq_eq.mp heq).le

theorem isLE_of_upgradeOrder {x y : Semver} {s t : String} {r r' : Option Revision}
    (h : upgradeOrder (.semver x s r) (.semver y t r') = .lt)
    (hkind : x.isPrerelease = y.isPrerelease) : (compare y x).isLE := by
  have hrank : (Version.semver x s r).rank = (Version.semver y t r').rank := by
    rw [Version.rank, Version.rank, hkind]
  rw [upgradeOrder, hrank, Nat.compare_eq_eq.mpr rfl] at h
  change (((compare y x).then (compare s t)).then _) = .lt at h
  cases hcompare : compare y x with
  | gt => simp [hcompare] at h
  | lt => rfl
  | eq => rfl

theorem isListing_of_ascending {listed : List Version}
    (h : listed.Pairwise fun v w => upgradeOrder v w = .lt) : IsListing listed where
  ascending := h
  nodup := Sorting.nodup_of_pairwise_lt h
  kinds := h.imp rank_le_of_upgradeOrder
  newest := by
    refine h.imp fun {v w} hlt => ?_
    rintro x s r y t r' rfl rfl hkind
    exact isLE_of_upgradeOrder hlt hkind

/-! ### All projects -/

private theorem get?_projects_addRelease (m : MemorySource) (root' : ProjectRoot) (r : Release) :
    (m.addRelease root' r).projects.get? root =
      if root = root' then some (put ((m.projects.get? root').getD []) r)
      else m.projects.get? root := by
  rw [addRelease, Table.get?_insert]
  rfl

theorem ofRegistrations_concat (calls : List Registration) (c : Registration) :
    ofRegistrations (calls ++ [c]) = (ofRegistrations calls).addRelease c.root c.released := by
  rw [ofRegistrations, List.foldl_concat, register_eq, ofRegistrations]

private theorem registered_concat (calls : List Registration) (c : Registration) :
    registered (calls ++ [c]) root =
      registered calls root ++ if c.root = root then [c.released] else [] := by
  rw [registered, List.filter_append, List.map_append, registered]
  by_cases h : c.root = root <;> simp [h]

private theorem get?_projects_ofRegistrations (calls : List Registration) (root : ProjectRoot) :
    (ofRegistrations calls).projects.get? root =
      if registered calls root = [] then none else some ((registered calls root).foldl put []) := by
  induction calls using List.reverseRecOn generalizing root with
  | nil => rfl
  | append_singleton calls c ih =>
      have hbefore : ((ofRegistrations calls).projects.get? c.root).getD [] =
          (registered calls c.root).foldl put [] := by
        rw [ih]
        split <;> simp_all
      rw [ofRegistrations_concat, get?_projects_addRelease, hbefore, registered_concat]
      by_cases h : root = c.root
      · subst h
        simp
      · rw [if_neg h, ih, if_neg (Ne.symm h), List.append_nil]

private theorem failures_ofRegistrations (calls : List Registration) :
    (ofRegistrations calls).failures = .empty := by
  induction calls using List.reverseRecOn with
  | nil => rfl
  | append_singleton calls c ih =>
      rw [ofRegistrations_concat]
      exact ih

theorem releases_ofRegistrations (calls : List Registration) (root : ProjectRoot) :
    (ofRegistrations calls).releases root =
      if registered calls root = [] then .error (.notFound root)
      else .ok ((registered calls root).foldl put []) := by
  rw [releases, failures_ofRegistrations, Table.get?_empty, get?_projects_ofRegistrations]
  by_cases h : registered calls root = [] <;> simp only [h, if_true, if_false]

theorem exists_releases_ofRegistrations (h : registered calls root ≠ []) :
    ∃ releases, (ofRegistrations calls).releases root = .ok releases ∧
      IsStock (registered calls root) releases :=
  ⟨_, by rw [releases_ofRegistrations, if_neg h],
    by simpa using isStock_foldl_put isStock_nil (registered calls root)⟩

theorem exists_versionsOf_ofRegistrations (h : registered calls root ≠ []) :
    ∃ listed, (ofRegistrations calls).answer.versionsOf root = .ok listed ∧ IsListing listed ∧
      ∀ v, v ∈ listed ↔ v ∈ (registered calls root).map (·.version) := by
  obtain ⟨releases, hreleases, hstock⟩ := exists_releases_ofRegistrations h
  exact ⟨_, versionsOf_answer_eq_ok.mpr ⟨releases, hreleases, rfl⟩,
    isListing_of_ascending hstock.ascending_map, fun v => hstock.mem_map_version⟩

theorem versionsOf_ofRegistrations_eq_error (h : registered calls root = []) :
    (ofRegistrations calls).answer.versionsOf root = .error (.notFound root) := by
  change ((ofRegistrations calls).releases root).map _ = _
  rw [releases_ofRegistrations, if_pos h]
  rfl

theorem versionsOf_ofRegistrations_congr
    (h : ∀ v, v ∈ (registered calls root).map (·.version) ↔
      v ∈ (registered calls' root).map (·.version)) :
    (ofRegistrations calls).answer.versionsOf root =
      (ofRegistrations calls').answer.versionsOf root := by
  have hnil : registered calls root = [] ↔ registered calls' root = [] := by
    simpa [List.eq_nil_iff_forall_not_mem] using forall_congr' fun v => not_congr (h v)
  by_cases hempty : registered calls root = []
  · rw [versionsOf_ofRegistrations_eq_error hempty,
      versionsOf_ofRegistrations_eq_error (hnil.mp hempty)]
  · obtain ⟨listed, hlisted, hlisting, hmem⟩ := exists_versionsOf_ofRegistrations hempty
    obtain ⟨listed', hlisted', hlisting', hmem'⟩ :=
      exists_versionsOf_ofRegistrations (mt hnil.mpr hempty)
    rw [hlisted, hlisted', Sorting.eq_of_mem_iff hlisting.ascending hlisting'.ascending
      fun v => (hmem v).trans ((h v).trans (hmem' v).symm)]

/-- The order of upgrades is a total order that tells all versions apart. A project is listed with
the versions that were registered for it, each once and in that order, however the calls that
registered them are arranged. -/
theorem isListing_versionsOf_ofRegistrations :
    ((∀ v w, upgradeOrder w v = (upgradeOrder v w).swap) ∧
      (∀ v w, upgradeOrder v w = .eq ↔ v = w) ∧
      ∀ u v w, (upgradeOrder u v).isLE → (upgradeOrder v w).isLE → (upgradeOrder u w).isLE) ∧
    ∀ calls root,
      (registered calls root ≠ [] →
        ∃ listed, (ofRegistrations calls).answer.versionsOf root = .ok listed ∧
          IsListing listed ∧ ∀ v, v ∈ listed ↔ v ∈ (registered calls root).map (·.version)) ∧
      (registered calls root = [] →
        (ofRegistrations calls).answer.versionsOf root = .error (.notFound root)) ∧
      ∀ calls', calls.Perm calls' → (ofRegistrations calls').answer.versionsOf root =
        (ofRegistrations calls).answer.versionsOf root := by
  refine ⟨⟨fun v w => Std.OrientedCmp.eq_swap, fun v w => Std.LawfulEqCmp.compare_eq_iff_eq,
    fun u v w => Std.TransCmp.isLE_trans⟩, fun calls root =>
    ⟨exists_versionsOf_ofRegistrations, versionsOf_ofRegistrations_eq_error, ?_⟩⟩
  intro calls' hperm
  have hregistered : (registered calls root).Perm (registered calls' root) :=
    (hperm.filter _).map _
  exact versionsOf_ofRegistrations_congr fun v => (hregistered.map _).mem_iff.symm

/-- Two spellings of a release, one of them paired and registered twice, a prerelease, and what is
no release. -/
def mixedCalls : List Registration :=
  [.package ⟨"a.io"⟩ (.revision ⟨"c0"⟩) [] .empty,
    .package ⟨"a.io"⟩ (.semver (.release 1 2 0) "v1.2.0" (some ⟨"c1"⟩)) ["b.io"] .empty,
    .package ⟨"a.io"⟩ (.semver ⟨2, 0, 0, ["rc"], []⟩ "2.0.0-rc" none) [] .empty,
    .package ⟨"a.io"⟩ (.tag "legacy" none) [] .empty,
    .package ⟨"a.io"⟩ (.semver (.release 1 2 0) "1.2.0" none) [] .empty,
    .release ⟨"b.io"⟩ ⟨.branch "main" none, .ofRoot "b.io", .empty⟩,
    .package ⟨"a.io"⟩ (.branch "main" none) [] .empty,
    .release ⟨"a.io"⟩ ⟨.semver (.release 1 2 0) "v1.2.0" (some ⟨"c1"⟩), .ofRoot "a.io", .empty⟩]

theorem isListing_mixedCalls : registered mixedCalls ⟨"a.io"⟩ ≠ [] ∧
    mixedCalls.Perm mixedCalls.reverse ∧
    (∃ listed, (ofRegistrations mixedCalls).answer.versionsOf ⟨"a.io"⟩ = .ok listed ∧
      IsListing listed ∧ ∀ v, v ∈ listed ↔ v ∈ (registered mixedCalls ⟨"a.io"⟩).map (·.version)) ∧
    (ofRegistrations mixedCalls.reverse).answer.versionsOf ⟨"a.io"⟩ =
      (ofRegistrations mixedCalls).answer.versionsOf ⟨"a.io"⟩ := by
  have hregistered : registered mixedCalls ⟨"a.io"⟩ ≠ [] := by decide
  have hperm := (List.reverse_perm mixedCalls).symm
  obtain ⟨hlisted, -, hsame⟩ := isListing_versionsOf_ofRegistrations.2 mixedCalls ⟨"a.io"⟩
  exact ⟨hregistered, hperm, hlisted hregistered, hsame _ hperm⟩

end DepSolver.MemorySource
