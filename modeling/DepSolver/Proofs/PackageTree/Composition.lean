import DepSolver.Project.Workspace
import DepSolver.Proofs.Except
import DepSolver.Proofs.PackageTree.Build
import DepSolver.Proofs.ProjectRoot
import DepSolver.Proofs.Table
import Mathlib.Data.List.Induction

/-!
The packages of several members in one tree. Each member takes over everything below its import
root, so a path belongs to the last member above it. A package is missing only where a later member
owns its path, and the order of two members matters only if one lies below the other.
-/

namespace DepSolver.PackageTree

variable {t base : PackageTree} {path : String}

theorem get?_strip (t : PackageTree) (bases : List String) (path : String) :
    (t.strip bases).get? path =
      if bases.any (ImportPath.isWithin path) then none else t.get? path := by
  rw [get?, strip, Table.get?_filter]
  cases bases.any (ImportPath.isWithin path) <;> cases h : t.packages.get? path <;> simp [get?, h]

theorem get?_merge (t other : PackageTree) (bases : List String) (path : String) :
    (t.merge other bases).get? path = (other.get? path).or ((t.strip bases).get? path) :=
  Table.get?_extend _ _ _

theorem ext {u : PackageTree} (hroot : t.importRoot = u.importRoot)
    (hget : ∀ path, t.get? path = u.get? path) : t = u := by
  have hpackages : t.packages = u.packages := Table.ext hget
  cases t
  cases u
  simp_all

/-- A member of a composition, with the packages of its own sources. -/
structure Part where
  root : ProjectRoot
  own : PackageTree
  within : ∀ path, own.contains path = true → root.contains path = true
deriving DecidableEq

/-- Put the packages of members, one after another, in place of everything below their roots. -/
def compose (base : PackageTree) (parts : List Part) : PackageTree :=
  parts.foldl (fun tree p => tree.merge p.own [p.root.path]) base

namespace Part

variable {p q : Part}

theorem contains_of_get? {entry : PackageEntry} (h : p.own.get? path = some entry) :
    p.root.contains path = true :=
  p.within path (Table.contains_iff.mpr ⟨entry, h⟩)

private theorem get?_eq_none (h : p.root.contains path = false) : p.own.get? path = none := by
  rw [Option.eq_none_iff_forall_ne_some]
  intro entry hentry
  rw [contains_of_get? hentry] at h
  cases h

theorem get?_merge (t : PackageTree) (p : Part) (path : String) :
    (t.merge p.own [p.root.path]).get? path =
      if p.root.contains path then p.own.get? path else t.get? path := by
  rw [PackageTree.get?_merge, get?_strip, List.any_cons, List.any_nil, Bool.or_false]
  change (p.own.get? path).or (if p.root.contains path then none else t.get? path) = _
  cases h : p.root.contains path with
  | true => simp
  | false => simp [get?_eq_none h]

/-- One of two members lies below the other. -/
def IsNested (p q : Part) : Prop :=
  p.root.contains q.root.path = true ∨ q.root.contains p.root.path = true

instance : Decidable (p.IsNested q) := inferInstanceAs (Decidable (_ ∨ _))

theorem isNested_of_contains (hp : p.root.contains path = true)
    (hq : q.root.contains path = true) : p.IsNested q :=
  (ImportPath.isWithin_total hp hq).symm

end Part

variable {parts parts' : List Part} {p : Part}

/-- The last member above a path. -/
def owner? (parts : List Part) (path : String) : Option Part :=
  (parts.filter (·.root.contains path)).getLast?

theorem get?_compose (base : PackageTree) (parts : List Part) (path : String) :
    (compose base parts).get? path =
      match owner? parts path with
      | some p => p.own.get? path
      | none => base.get? path := by
  induction parts using List.reverseRecOn with
  | nil => rfl
  | append_singleton parts p ih =>
      have hcompose : compose base (parts ++ [p]) =
          (compose base parts).merge p.own [p.root.path] := List.foldl_concat ..
      rw [hcompose, Part.get?_merge, owner?, List.filter_append]
      split
      · rename_i hp
        simp [hp]
      · rename_i hp
        simp [hp, ih, owner?]

theorem importRoot_compose (base : PackageTree) (parts : List Part) :
    (compose base parts).importRoot = base.importRoot := by
  induction parts generalizing base with
  | nil => rfl
  | cons p parts ih => exact ih _

theorem owner?_eq_none_iff :
    owner? parts path = none ↔ ∀ p ∈ parts, p.root.contains path = false := by
  simp [owner?]

theorem owner?_eq_some_iff : owner? parts path = some p ↔
    ∃ before, parts.filter (·.root.contains path) = before ++ [p] :=
  List.getLast?_eq_some_iff

theorem mem_of_owner?_eq_some (h : owner? parts path = some p) :
    p ∈ parts ∧ p.root.contains path = true :=
  List.mem_filter.mp (List.mem_of_getLast? h)

theorem owner?_of_split {before after : List Part} (hp : p.root.contains path = true)
    (hafter : ∀ later ∈ after, later.root.contains path = false) :
    owner? (before ++ p :: after) path = some p := by
  have hnone : after.filter (·.root.contains path) = [] := by
    simpa using hafter
  rw [owner?_eq_some_iff]
  exact ⟨before.filter (·.root.contains path), by simp [hp, hnone]⟩

/-- Where members are listed after those above them, a path belongs to the innermost one. -/
theorem owner?_of_innermost
    (horder : parts.Pairwise fun earlier later => later.root.contains earlier.root.path = false)
    (hmem : p ∈ parts) (hp : p.root.contains path = true)
    (hinner : ∀ q ∈ parts, q.root.contains path = true → q.root.contains p.root.path = true) :
    owner? parts path = some p := by
  cases howner : owner? parts path with
  | none => simp [owner?_eq_none_iff.mp howner p hmem] at hp
  | some q =>
      obtain ⟨before, hfilter⟩ := owner?_eq_some_iff.mp howner
      obtain ⟨hq, hqpath⟩ := mem_of_owner?_eq_some howner
      have hpairs := horder.filter (·.root.contains path)
      have hpmem : p ∈ parts.filter (·.root.contains path) := List.mem_filter.mpr ⟨hmem, hp⟩
      rw [hfilter] at hpairs hpmem
      rcases List.mem_append.mp hpmem with hbefore | hlast
      · have hnot := (List.pairwise_append.mp hpairs).2.2 p hbefore q (List.mem_singleton_self q)
        rw [hinner q hq hqpath] at hnot
        cases hnot
      · rw [List.mem_singleton.mp hlast]

private theorem not_sublist_of_owner? {q : Part} (hnodup : parts.Nodup) (h :
    owner? parts path = some p)
    (hq : q.root.contains path = true) : ¬ [p, q].Sublist parts := by
  obtain ⟨before, hfilter⟩ := owner?_eq_some_iff.mp h
  have hp := (mem_of_owner?_eq_some h).2
  have hdistinct : (before ++ [p]).Nodup := hfilter ▸ hnodup.filter _
  intro hsublist
  have hsub : [p, q].Sublist (before ++ [p]) := by
    simpa [hfilter, hp, hq] using hsublist.filter (·.root.contains path)
  have hbackwards : [q, p].Sublist (p :: before.reverse) := by
    simpa using List.reverse_sublist.mpr hsub
  have hbefore : p ∈ before := by
    cases hbackwards with
    | cons _ h => simpa using h.subset (List.mem_cons_of_mem q (List.mem_singleton_self p))
    | cons_cons _ h => simpa using h
  exact (List.nodup_append.mp hdistinct).2.2 p hbefore p (List.mem_singleton_self p) rfl

/-- Two orders of the same members agree on those of which one lies below the other. -/
structure IsReordering (parts parts' : List Part) : Prop where
  perm : parts.Perm parts'
  nested : parts.Pairwise fun p q => p.IsNested q → [p, q].Sublist parts'

theorem IsReordering.owner?_eq (h : IsReordering parts parts') (hnodup : parts.Nodup)
    (path : String) : owner? parts path = owner? parts' path := by
  cases howner : owner? parts path with
  | none =>
      rw [eq_comm, owner?_eq_none_iff]
      exact fun p hp => owner?_eq_none_iff.mp howner p (h.perm.mem_iff.mpr hp)
  | some p =>
      obtain ⟨hmem, hp⟩ := mem_of_owner?_eq_some howner
      cases howner' : owner? parts' path with
      | none => simp [owner?_eq_none_iff.mp howner' p (h.perm.mem_iff.mp hmem)] at hp
      | some q =>
          obtain ⟨hmem', hq⟩ := mem_of_owner?_eq_some howner'
          obtain ⟨before, hfilter⟩ := owner?_eq_some_iff.mp howner
          have hqmem : q ∈ before ++ [p] :=
            hfilter ▸ List.mem_filter.mpr ⟨h.perm.mem_iff.mpr hmem', hq⟩
          rcases List.mem_append.mp hqmem with hbefore | hlast
          · have hsub : [q, p].Sublist parts :=
              ((List.singleton_sublist.mpr hbefore).append (List.Sublist.refl [p])).trans
                (hfilter ▸ List.filter_sublist)
            have hsub' : [q, p].Sublist parts' := List.pairwise_iff_forall_sublist.mp h.nested hsub
              (Part.isNested_of_contains hq hp)
            exact absurd hsub' (not_sublist_of_owner? (h.perm.nodup_iff.mp hnodup) howner' hp)
          · rw [List.mem_singleton.mp hlast]

/-- A composition of members over a base, by what their own trees hold. -/
structure IsComposition (base : PackageTree) (parts : List Part) (tree : PackageTree) : Prop where
  importRoot_eq : tree.importRoot = base.importRoot
  /-- What a member has is kept where no later member takes over. -/
  kept : ∀ before p after, parts = before ++ p :: after →
    ∀ path entry, p.own.get? path = some entry →
      (∀ later ∈ after, later.root.contains path = false) → tree.get? path = some entry
  /-- Members that do not lie below each other lose nothing. -/
  complete : parts.Pairwise (fun p q => ¬ p.IsNested q) →
    ∀ p ∈ parts, ∀ path entry, p.own.get? path = some entry → tree.get? path = some entry
  /-- With every member after those above it, the innermost one decides. -/
  innermost :
    parts.Pairwise (fun earlier later => later.root.contains earlier.root.path = false) →
      ∀ p ∈ parts, ∀ path, p.root.contains path = true →
        (∀ q ∈ parts, q.root.contains path = true → q.root.contains p.root.path = true) →
        tree.get? path = p.own.get? path
  outside : ∀ path, (∀ p ∈ parts, p.root.contains path = false) →
    tree.get? path = base.get? path
  reordered : (parts.map (·.root)).Nodup →
    ∀ parts', IsReordering parts parts' → compose base parts' = tree

theorem isComposition_compose (base : PackageTree) (parts : List Part) :
    IsComposition base parts (compose base parts) where
  importRoot_eq := importRoot_compose base parts
  kept := by
    rintro before p after rfl path entry hentry hafter
    rw [get?_compose, owner?_of_split (Part.contains_of_get? hentry) hafter]
    exact hentry
  complete hapart p hmem path entry hentry := by
    obtain ⟨before, after, rfl⟩ := List.append_of_mem hmem
    have hlater := (List.pairwise_cons.mp (List.pairwise_append.mp hapart).2.1).1
    have hp := Part.contains_of_get? hentry
    rw [get?_compose, owner?_of_split hp fun later hmem => Bool.eq_false_iff.mpr fun hcontains =>
      hlater later hmem (Part.isNested_of_contains hp hcontains)]
    exact hentry
  innermost horder p hmem path hp hinner := by
    rw [get?_compose, owner?_of_innermost horder hmem hp hinner]
  outside path hnone := by
    rw [get?_compose, owner?_eq_none_iff.mpr hnone]
  reordered hdistinct parts' h := by
    apply ext
    · rw [importRoot_compose, importRoot_compose]
    · intro path
      rw [get?_compose, get?_compose, h.owner?_eq (List.Nodup.of_map _ hdistinct)]

/-- A project gives its import root and the packages of its sources to a composition. -/
structure Part.IsOf (p : Part) (disk : FileTree) (b : BaseProject) : Prop where
  root_eq : p.root = b.importRoot
  own_eq : b.packageTree disk = .ok p.own

theorem Part.exists_isOf {disk : FileTree} {b : BaseProject} {own : PackageTree}
    (h : b.packageTree disk = .ok own) : ∃ p : Part, p.IsOf disk b ∧ p.own = own :=
  ⟨⟨b.importRoot, own, (isRooted_of_buildWith h).within⟩, ⟨rfl, h⟩, rfl⟩

theorem foldlM_merge_eq_ok_iff {disk : FileTree} {projects : List BaseProject}
    {tree : PackageTree} :
    projects.foldlM (fun (tree : PackageTree) b => do
        return tree.merge (← b.packageTree disk) [b.importRoot.path]) base = .ok tree ↔
      ∃ parts, List.Forall₂ (fun b p => Part.IsOf p disk b) projects parts ∧
        tree = compose base parts := by
  induction projects generalizing base with
  | nil =>
      rw [List.foldlM_nil]
      constructor
      · intro h
        cases h
        exact ⟨[], .nil, rfl⟩
      · rintro ⟨parts, hparts, rfl⟩
        cases hparts
        rfl
  | cons b projects ih =>
      rw [List.foldlM_cons]
      constructor
      · intro h
        obtain ⟨merged, hmerged, hrest⟩ := exists_of_bind_eq_ok h
        obtain ⟨own, hown, hmerge⟩ := exists_of_bind_eq_ok hmerged
        cases hmerge
        obtain ⟨p, hp, rfl⟩ := Part.exists_isOf hown
        obtain ⟨parts, hparts, rfl⟩ := ih.mp hrest
        exact ⟨p :: parts, .cons hp hparts, by rw [← hp.root_eq]; rfl⟩
      · rintro ⟨parts, hparts, rfl⟩
        cases hparts with
        | cons hp hparts =>
            rw [hp.own_eq, ← hp.root_eq]
            exact ih.mpr ⟨_, hparts, rfl⟩

/-- The packages of a workspace are the composition of its members. Those of a project with local
sub-projects are the composition of the sub-projects over what is its own. -/
theorem isComposition_packageTree (disk : FileTree) :
    (∀ base parts, IsComposition base parts (compose base parts)) ∧
      (∀ (w : Workspace) tree, w.packageTree disk = .ok tree ↔
        ∃ parts, List.Forall₂ (fun b p => Part.IsOf p disk b) w.projects parts ∧
          tree = compose (ofRoot "") parts) ∧
      (∀ (m : MultiRepo) tree, m.packageTree disk = .ok tree ↔
        ∃ own, m.base.packageTree disk = .ok own ∧
          ∃ parts, List.Forall₂ (fun b p => Part.IsOf p disk b) m.subprojects parts ∧
            tree = compose (own.strip m.gopathRoots) parts) := by
  refine ⟨isComposition_compose, fun w tree => foldlM_merge_eq_ok_iff, fun m tree => ?_⟩
  constructor
  · intro h
    obtain ⟨own, hown, hfold⟩ := exists_of_bind_eq_ok h
    exact ⟨own, hown, foldlM_merge_eq_ok_iff.mp hfold⟩
  · rintro ⟨own, hown, hparts⟩
    rw [MultiRepo.packageTree, hown]
    exact foldlM_merge_eq_ok_iff.mpr hparts

/-- A tree of packages that import nothing. -/
def ofPaths (root : String) (paths : List String) : PackageTree :=
  paths.foldl (fun tree path => tree.insertPackage ⟨path, "p", [], []⟩) (ofRoot root)

def Part.ofPaths (root : String) (paths : List String)
    (h : ∀ path ∈ (PackageTree.ofPaths root paths).packages.keys,
      ImportPath.isWithin path root = true) : Part where
  root := ⟨root⟩
  own := PackageTree.ofPaths root paths
  within path hpath := h path (Table.mem_keys_iff.mpr (Table.contains_iff.mp hpath))

/-- A member with a package below the root of another one. -/
def outerPart : Part := .ofPaths "a.io" ["a.io", "a.io/b/c"] (by decide +kernel)

def innerPart : Part := .ofPaths "a.io/b" ["a.io/b"] (by decide +kernel)

def besidePart : Part := .ofPaths "b.io" ["b.io", "b.io/c"] (by decide +kernel)

theorem isComposition_packageTree_nestedParts :
    (compose (ofRoot "") [outerPart, innerPart, besidePart]).get? "a.io" =
        outerPart.own.get? "a.io" ∧
      (compose (ofRoot "") [outerPart, innerPart, besidePart]).get? "a.io/b" =
        innerPart.own.get? "a.io/b" ∧
      (compose (ofRoot "") [innerPart, besidePart]).get? "b.io/c" =
        besidePart.own.get? "b.io/c" ∧
      compose (ofRoot "") [besidePart, outerPart, innerPart] =
        compose (ofRoot "") [outerPart, innerPart, besidePart] := by
  have h := (isComposition_packageTree .empty).1 (ofRoot "") [outerPart, innerPart, besidePart]
  have hapart := (isComposition_packageTree .empty).1 (ofRoot "") [innerPart, besidePart]
  refine ⟨?_, ?_, ?_, ?_⟩
  · exact h.kept [] outerPart [innerPart, besidePart] rfl _ _ (by decide +kernel)
      (by decide +kernel)
  · exact h.innermost (by decide +kernel) innerPart (by decide +kernel) _ (by decide +kernel)
      (by decide +kernel)
  · exact hapart.complete (by decide +kernel) besidePart (by decide +kernel) _ _ (by decide +kernel)
  · exact h.reordered (by decide +kernel) _ ⟨by decide +kernel, by decide +kernel⟩

/-- The later one of two nested members takes over a package of the earlier one, so their order
counts although no import path is in both. -/
theorem lost_of_nested :
    (outerPart.root ≠ innerPart.root ∧ outerPart.root.path ≠ "" ∧ innerPart.root.path ≠ "") ∧
      (∀ path ∈ outerPart.own.packages.keys, path ∉ innerPart.own.packages.keys) ∧
      outerPart.own.contains "a.io/b/c" = true ∧
      (compose (ofRoot "") [outerPart, innerPart]).contains "a.io/b/c" = false ∧
      compose (ofRoot "") [innerPart, outerPart] ≠ compose (ofRoot "") [outerPart, innerPart] := by
  decide +kernel

end DepSolver.PackageTree
