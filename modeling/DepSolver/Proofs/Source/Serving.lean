import DepSolver.Proofs.Source.Listing

/-!
What a source in memory serves of a listed version. Versions are looked up by release, so a version
may be served with the contents of another one that is listed before it: of a tag of the same number
that is spelled otherwise, of a version that is not paired, or of one that points at a bare revision.
-/

namespace DepSolver

namespace Version

/-- A version comes before another one of the same release. -/
inductive Shadows : Version → Version → Prop
  /-- Of two spellings of a number the first one as a text, unless they point at two revisions. -/
  | spelling {x : Semver} {s t : String} {r r' : Option Revision} (h : compare s t = .lt)
      (hr : r = none ∨ r' = none ∨ r = r') : Shadows (.semver x s r) (.semver x t r')
  | unpaired {v : Version} (r : Revision) (h : v.underlying = none) : Shadows v (v.paired r)
  | pointing {v : Version} {r : Revision} (hkind : ∀ r', v ≠ .revision r')
      (h : v.underlying = some r) : Shadows v (.revision r)

variable {v w : Version} {r : Revision}

theorem sameRelease_iff : v.sameRelease w = true ↔ v.sameName w = true ∧
    (v.underlying = none ∨ w.underlying = none ∨ v.underlying = w.underlying) := by
  rw [sameRelease, Bool.and_eq_true]
  cases v.underlying <;> cases w.underlying <;> simp

theorem sameRelease_self (v : Version) : v.sameRelease v = true := by
  rw [sameRelease_iff]
  cases v <;> simp [sameName, underlying]

theorem sameName_revision_iff : v.sameName (.revision r) = true ↔ v.underlying = some r := by
  cases v with
  | revision r' => simp [sameName, underlying, eq_comm]
  | _ => exact decide_eq_true_iff

theorem upgradeOrder_revision (h : ∀ r', v ≠ .revision r') (r : Revision) :
    upgradeOrder v (.revision r) = .lt := by
  have hrank : v.rank < (revision r).rank := by
    cases v with
    | semver x s r' => exact Nat.lt_of_le_of_lt (rank_semver_le x s r') (by simp [rank])
    | tag | branch => simp [rank]
    | revision r' => exact absurd rfl (h r')
  rw [upgradeOrder, Nat.compare_eq_lt.mpr hrank]
  rfl

private theorem upgradeOrder_paired (h : v.underlying = none) (r : Revision) :
    upgradeOrder v (v.paired r) = .lt := by
  cases v with
  | revision => cases h
  | _ =>
      obtain rfl : _ = none := h
      simp only [paired, upgradeOrder, rank, compareNames, Std.ReflCmp.compare_self]
      rfl

theorem Shadows.upgradeOrder (h : v.Shadows w) : upgradeOrder v w = .lt := by
  cases h with
  | spelling h => simp [Version.upgradeOrder, rank, compareNames, h]
  | unpaired r h => exact upgradeOrder_paired h r
  | pointing hkind => exact upgradeOrder_revision hkind _

theorem Shadows.sameRelease (h : v.Shadows w) : v.sameRelease w = true := by
  rw [sameRelease_iff]
  cases h with
  | spelling h hr => exact ⟨by simp [sameName], hr⟩
  | unpaired r h =>
      refine ⟨?_, .inl h⟩
      cases v with
      | revision => cases h
      | _ => simp [sameName, paired]
  | pointing hkind h => exact ⟨sameName_revision_iff.mpr h, .inr (.inr h)⟩

private theorem shadows_of_revisions {f : Option Revision → Version} {r r' : Option Revision}
    (hpaired : ∀ x, (f none).paired x = f (some x)) (hunderlying : (f none).underlying = none)
    (hlt : compare r r' = .lt) (hagree : r = none ∨ r' = none ∨ r = r') :
    (f r).Shadows (f r') := by
  cases r' with
  | none => cases r <;> cases hlt
  | some x =>
      rcases hagree with rfl | hnone | rfl
      · exact hpaired x ▸ .unpaired x hunderlying
      · cases hnone
      · simp [Std.ReflCmp.compare_self] at hlt

private theorem not_upgradeOrder_revision (h : (revision r).sameName w = true) :
    Version.upgradeOrder (revision r) w ≠ .lt := by
  intro hlt
  by_cases hkind : ∀ r', w ≠ .revision r'
  · exact Std.OrientedCmp.not_lt_of_lt (upgradeOrder_revision hkind r) hlt
  · obtain ⟨r', rfl⟩ : ∃ r', w = .revision r' := by simpa using hkind
    obtain rfl : r = r' := by simpa [underlying] using sameName_revision_iff.mp h
    simp [Std.ReflCmp.compare_self] at hlt

private theorem shadows_of_upgradeOrder (hlt : Version.upgradeOrder v w = .lt)
    (hsame : v.sameRelease w = true) : v.Shadows w := by
  obtain ⟨hname, hagree⟩ := sameRelease_iff.mp hsame
  cases v with
  | revision r => exact absurd hlt (not_upgradeOrder_revision hname)
  | semver x s r =>
      cases w with
      | semver y t r' =>
          obtain rfl : x = y := by simpa [sameName] using hname
          have hlast : (compare s t).then (compare r r') = .lt := by
            simpa [Version.upgradeOrder, rank, compareNames, underlying] using hlt
          rcases Ordering.then_eq_lt.mp hlast with hspelling | ⟨heq, hrevisions⟩
          · exact .spelling hspelling hagree
          · obtain rfl := Std.LawfulEqCmp.eq_of_compare heq
            exact shadows_of_revisions (f := .semver x s) (fun _ => rfl) rfl hrevisions hagree
      | revision r' => exact .pointing (by simp) (sameName_revision_iff.mp hname)
      | _ => cases hname
  | tag s r =>
      cases w with
      | tag t r' =>
          obtain rfl : s = t := by simpa [sameName] using hname
          have hrevisions : compare r r' = .lt := by
            simpa [Version.upgradeOrder, rank, compareNames, underlying,
              Std.ReflCmp.compare_self] using hlt
          exact shadows_of_revisions (f := .tag s) (fun _ => rfl) rfl hrevisions hagree
      | revision r' => exact .pointing (by simp) (sameName_revision_iff.mp hname)
      | _ => cases hname
  | branch s r =>
      cases w with
      | branch t r' =>
          obtain rfl : s = t := by simpa [sameName] using hname
          have hrevisions : compare r r' = .lt := by
            simpa [Version.upgradeOrder, rank, compareNames, underlying,
              Std.ReflCmp.compare_self] using hlt
          exact shadows_of_revisions (f := .branch s) (fun _ => rfl) rfl hrevisions hagree
      | revision r' => exact .pointing (by simp) (sameName_revision_iff.mp hname)
      | _ => cases hname

theorem shadows_iff : v.Shadows w ↔
    Version.upgradeOrder v w = .lt ∧ v.sameRelease w = true :=
  ⟨fun h => ⟨h.upgradeOrder, h.sameRelease⟩, fun h => shadows_of_upgradeOrder h.1 h.2⟩

end Version

namespace MemorySource

open Version (upgradeOrder)

variable {calls : List Registration} {root : ProjectRoot} {l releases : List Release}
  {listed : List Version} {v : Version}

/-- A listed version finds its own release, or the first one that shadows it. -/
theorem IsStock.exists_find? (h : IsStock l releases) (hv : v ∈ releases.map (·.version)) :
    ∃ r, releases.find? (·.version.sameRelease v) = some r ∧
      (r.version = v ∧ (∀ x ∈ releases, ¬ x.version.Shadows v) ∨
        r.version.Shadows v ∧ ∀ x ∈ releases, x.version.Shadows v →
          (upgradeOrder r.version x.version).isLE) := by
  obtain ⟨own, hown, rfl⟩ := List.mem_map.mp hv
  obtain ⟨r, hfind⟩ : ∃ r, releases.find? (·.version.sameRelease own.version) = some r := by
    rw [← Option.isSome_iff_exists, List.find?_isSome]
    exact ⟨own, hown, Version.sameRelease_self _⟩
  obtain ⟨hsame, before, after, hsplit, hbefore⟩ := List.find?_eq_some_iff_append.mp hfind
  have hle : ∀ x ∈ releases, x.version.sameRelease own.version = true →
      x = r ∨ upgradeOrder r.version x.version = .lt := by
    intro x hx hsame
    have hascending := h.ascending
    rw [hsplit, List.pairwise_append, List.pairwise_cons] at hascending
    rw [hsplit, List.mem_append, List.mem_cons] at hx
    rcases hx with hx | rfl | hx
    · have hother := hbefore x hx
      simp [hsame] at hother
    · exact .inl rfl
    · exact .inr (hascending.2.1.1 x hx)
  refine ⟨r, hfind, ?_⟩
  rcases hle own hown (Version.sameRelease_self _) with rfl | hlt
  · refine .inl ⟨rfl, fun x hx hshadows => ?_⟩
    rcases hle x hx hshadows.sameRelease with rfl | hgt
    · simpa [Std.ReflCmp.compare_self] using hshadows.upgradeOrder
    · exact Std.OrientedCmp.not_lt_of_lt hgt hshadows.upgradeOrder
  · refine .inr ⟨Version.shadows_iff.mpr ⟨hlt, by simpa using hsame⟩, fun x hx hshadows => ?_⟩
    rcases hle x hx hshadows.sameRelease with rfl | hgt
    · simp [Std.ReflCmp.compare_self]
    · simp [hgt]

/-- A listed version is served as it was registered last, unless a version of the same release is
listed before it. Then it is served as the first of these was. -/
theorem isServed_of_mem_versionsOf
    (hlisted : (ofRegistrations calls).answer.versionsOf root = .ok listed) (hv : v ∈ listed) :
    ∃ w ∈ listed, ∃ r, last? (registered calls root) w = some r ∧
      (ofRegistrations calls).answer.treeAt root v = .ok r.tree ∧
      (ofRegistrations calls).answer.manifestAt root v = .ok r.manifest ∧
      (w = v ∧ (∀ u ∈ listed, ¬ u.Shadows v) ∨
        w.Shadows v ∧ ∀ u ∈ listed, u.Shadows v → (upgradeOrder w u).isLE) := by
  obtain ⟨releases, hreleases, rfl⟩ := versionsOf_answer_eq_ok.mp hlisted
  have hstock : IsStock (registered calls root) releases := by
    have hne : registered calls root ≠ [] := by
      intro hnil
      rw [releases_ofRegistrations, if_pos hnil] at hreleases
      cases hreleases
    obtain ⟨stock, hstock, h⟩ := exists_releases_ofRegistrations hne
    rw [hstock] at hreleases
    cases hreleases
    exact h
  obtain ⟨r, hfind, hfound⟩ := hstock.exists_find? hv
  have hr : r ∈ releases := List.mem_of_find?_eq_some hfind
  have hrelease : (ofRegistrations calls).release root v = .ok r := by
    rw [release, hreleases]
    simp only [hfind]
  refine ⟨r.version, List.mem_map_of_mem hr, r, (hstock.mem_iff r).mp hr,
    treeAt_answer_eq_ok.mpr ⟨r, hrelease, rfl⟩,
    manifestAt_answer_eq_ok.mpr ⟨r, hrelease, rfl⟩, ?_⟩
  simpa only [List.forall_mem_map] using hfound

/-- A release whose tag is spelled in some way, with a package that imports another project. -/
def spelledRelease (tag path : String) : Release :=
  ⟨.semver (.release 1 0 0) tag none,
    (PackageTree.ofRoot "a.io").insertPackage ⟨"a.io", "a", [path], []⟩, .empty⟩

def spelledTwice : List Registration :=
  [.release ⟨"a.io"⟩ (spelledRelease "1.0.0" "b.io"),
    .release ⟨"a.io"⟩ (spelledRelease "v1.0.0" "c.io")]

theorem versionsOf_spelledTwice : (ofRegistrations spelledTwice).answer.versionsOf ⟨"a.io"⟩ =
    .ok [.semver (.release 1 0 0) "1.0.0" none, .semver (.release 1 0 0) "v1.0.0" none] := rfl

theorem isServed_spelledTwice :
    ∃ listed v, (ofRegistrations spelledTwice).answer.versionsOf ⟨"a.io"⟩ = .ok listed ∧
      v ∈ listed ∧ ∃ w ∈ listed, ∃ r, last? (registered spelledTwice ⟨"a.io"⟩) w = some r ∧
        (ofRegistrations spelledTwice).answer.treeAt ⟨"a.io"⟩ v = .ok r.tree ∧
        (ofRegistrations spelledTwice).answer.manifestAt ⟨"a.io"⟩ v = .ok r.manifest ∧
        (w = v ∧ (∀ u ∈ listed, ¬ u.Shadows v) ∨
          w.Shadows v ∧ ∀ u ∈ listed, u.Shadows v → (upgradeOrder w u).isLE) :=
  ⟨_, .semver (.release 1 0 0) "v1.0.0" none, versionsOf_spelledTwice, by decide,
    isServed_of_mem_versionsOf versionsOf_spelledTwice (by decide)⟩

/-- A listed version need not be served with its own contents. -/
theorem not_isServed_own : ¬ ∀ calls root listed v,
    (ofRegistrations calls).answer.versionsOf root = .ok listed → v ∈ listed →
      ∃ r, last? (registered calls root) v = some r ∧
        (ofRegistrations calls).answer.treeAt root v = .ok r.tree ∧
        (ofRegistrations calls).answer.manifestAt root v = .ok r.manifest := by
  intro hserved
  obtain ⟨r, hlast, htree, -⟩ := hserved spelledTwice ⟨"a.io"⟩ _
    (.semver (.release 1 0 0) "v1.0.0" none) versionsOf_spelledTwice (by decide)
  have hown : last? (registered spelledTwice ⟨"a.io"⟩) (.semver (.release 1 0 0) "v1.0.0" none) =
      some (spelledRelease "v1.0.0" "c.io") := rfl
  have hother : (ofRegistrations spelledTwice).answer.treeAt ⟨"a.io"⟩
      (.semver (.release 1 0 0) "v1.0.0" none) = .ok (spelledRelease "1.0.0" "b.io").tree := rfl
  rw [hown] at hlast
  rw [hother, ← Option.some.inj hlast, Except.ok.injEq] at htree
  exact absurd htree (by decide)

end MemorySource

end DepSolver
