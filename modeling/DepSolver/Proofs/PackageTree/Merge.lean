import DepSolver.Proofs.PackageTree.Composition
import Mathlib.Data.List.Infix

/-!
What a merge of package trees holds. The other tree has its way at its own paths, and elsewhere the
entries stay that lie neither at nor below a stripped path. So a merge with the tree itself changes
nothing, and merges may be grouped in any way.
-/

namespace DepSolver

/-! ### Paths by their segments -/

theorem Text.intercalate_append {α : Type} {sep : α} {l l' : List (List α)} (hl : l ≠ [])
    (hl' : l' ≠ []) :
    [sep].intercalate (l ++ l') = [sep].intercalate l ++ sep :: [sep].intercalate l' := by
  induction l with
  | nil => exact absurd rfl hl
  | cons part rest ih =>
      cases rest with
      | nil =>
          rw [List.singleton_append, List.intercalate_cons_of_ne_nil hl',
            List.intercalate_singleton, List.append_assoc, List.singleton_append]
      | cons next rest =>
          rw [List.cons_append, List.intercalate_cons_of_ne_nil (by simp),
            ih (List.cons_ne_nil _ _), List.intercalate_cons_cons]
          simp only [List.append_assoc]

namespace ImportPath

/-- The segments of a path, between its slashes; the empty path has none. -/
def segments (path : String) : List (List Char) :=
  if path = "" then [] else List.splitOn '/' path.toList

theorem splitOn_prefix_iff {l l' : List Char} :
    List.splitOn '/' l <+: List.splitOn '/' l' ↔
      ∃ rest, l' = l ++ rest ∧ (rest = [] ∨ ∃ below, rest = '/' :: below) := by
  constructor
  · rintro ⟨more, hmore⟩
    have hjoin := congrArg (['/'].intercalate) hmore
    rw [List.intercalate_splitOn] at hjoin
    by_cases hnil : more = []
    · rw [hnil, List.append_nil, List.intercalate_splitOn] at hjoin
      exact ⟨[], by rw [List.append_nil, hjoin], .inl rfl⟩
    · rw [Text.intercalate_append (List.splitOn_ne_nil _ _) hnil, List.intercalate_splitOn] at hjoin
      exact ⟨_, hjoin.symm, .inr ⟨_, rfl⟩⟩
  · rintro ⟨rest, rfl, rfl | ⟨below, rfl⟩⟩
    · rw [List.append_nil]
    · rw [List.splitOn_append_cons_self]
      exact List.prefix_append _ _

theorem isWithin_iff_segments_prefix {path base : String} :
    isWithin path base = true ↔ segments base <+: segments path := by
  rw [isWithin_iff, segments, segments]
  by_cases hbase : base = ""
  · rw [if_pos hbase]
    exact iff_of_true ⟨path.toList, by simp [hbase], .inl hbase⟩ List.nil_prefix
  · rw [if_neg hbase]
    by_cases hpath : path = ""
    · rw [if_pos hpath, List.prefix_nil]
      refine iff_of_false ?_ (List.splitOn_ne_nil _ _)
      rintro ⟨rest, hrest, -⟩
      rw [hpath] at hrest
      exact hbase (String.toList_eq_nil_iff.mp (List.append_eq_nil_iff.mp hrest.symm).1)
    · rw [if_neg hpath, splitOn_prefix_iff]
      simp only [hbase, false_or]

end ImportPath

/-! ### Merges -/

namespace PackageTree

variable {a b c t : PackageTree} {bases bases' : List String} {path : String}

/-- A path lies at or below one of some paths, segment by segment. -/
def IsCovered (bases : List String) (path : String) : Prop :=
  ∃ base ∈ bases, ImportPath.segments base <+: ImportPath.segments path

private theorem isCovered_append :
    IsCovered (bases ++ bases') path ↔ IsCovered bases path ∨ IsCovered bases' path := by
  simp only [IsCovered, List.mem_append, or_and_right, exists_or]

theorem any_isWithin_iff : bases.any (ImportPath.isWithin path) = true ↔ IsCovered bases path := by
  simp only [List.any_eq_true, ImportPath.isWithin_iff_segments_prefix, IsCovered]

/-- What a tree holds if one tree is put over another one in place of everything below some
paths. -/
structure IsMerge (a b : PackageTree) (bases : List String) (t : PackageTree) : Prop where
  importRoot_eq : t.importRoot = a.importRoot
  overlay : ∀ path entry, b.get? path = some entry → t.get? path = some entry
  kept : ∀ path, b.get? path = none → ∀ entry,
    t.get? path = some entry ↔ a.get? path = some entry ∧ ¬ IsCovered bases path

theorem get?_strip_eq_some_iff {entry : PackageEntry} :
    (a.strip bases).get? path = some entry ↔
      a.get? path = some entry ∧ ¬ IsCovered bases path := by
  rw [get?_strip, ← any_isWithin_iff]
  cases bases.any (ImportPath.isWithin path) <;> simp

theorem isMerge_merge (a b : PackageTree) (bases : List String) :
    IsMerge a b bases (a.merge b bases) where
  importRoot_eq := rfl
  overlay path entry h := by rw [get?_merge, h, Option.some_or]
  kept path h entry := by rw [get?_merge, h, Option.none_or, get?_strip_eq_some_iff]

theorem IsMerge.unique (h : IsMerge a b bases t) (h' : IsMerge a b bases c) : t = c := by
  refine ext (h.importRoot_eq.trans h'.importRoot_eq.symm) fun path => ?_
  cases hb : b.get? path with
  | some entry => rw [h.overlay path entry hb, h'.overlay path entry hb]
  | none =>
      apply Option.ext
      intro entry
      exact (h.kept path hb entry).trans (h'.kept path hb entry).symm

theorem isMerge_iff : IsMerge a b bases t ↔ t = a.merge b bases := by
  constructor
  · exact fun h => h.unique (isMerge_merge a b bases)
  · rintro rfl
    exact isMerge_merge a b bases

theorem isMerge_self (a : PackageTree) (bases : List String) : IsMerge a a bases a where
  importRoot_eq := rfl
  overlay _ _ h := h
  kept path h entry := by simp [h]

private theorem isMerge_merge_merge (a b c : PackageTree) (bases bases' : List String) :
    IsMerge a (b.merge c bases') (bases ++ bases') ((a.merge b bases).merge c bases') where
  importRoot_eq := rfl
  overlay path entry h := by
    rw [get?_merge, Option.or_eq_some_iff] at h ⊢
    refine h.imp_right fun ⟨hc, hb⟩ => ⟨hc, ?_⟩
    obtain ⟨hb, hfree⟩ := get?_strip_eq_some_iff.mp hb
    exact get?_strip_eq_some_iff.mpr ⟨(isMerge_merge a b bases).overlay path entry hb, hfree⟩
  kept path h entry := by
    rw [get?_merge, Option.or_eq_none_iff] at h
    rw [get?_merge, h.1, Option.none_or, get?_strip_eq_some_iff, isCovered_append, not_or,
      ← and_assoc]
    refine and_congr_left fun hfree => ?_
    have hb : b.get? path = none := by
      rw [Option.eq_none_iff_forall_ne_some]
      intro other hother
      rw [get?_strip_eq_some_iff.mpr ⟨hother, hfree⟩] at h
      cases h.2
    exact (isMerge_merge a b bases).kept path hb entry

/-- Merges are idempotent and associative, and what a merge holds is told by the two trees: it has
the import root of the first one, at the paths of the second one what the second one has there, and
elsewhere what the first one has there, except at and below the stripped paths. -/
theorem merge_laws (a b c : PackageTree) (bases bases' : List String) :
    a.merge a bases = a ∧
      (a.merge b bases).merge c bases' = a.merge (b.merge c bases') (bases ++ bases') ∧
      ∀ t, t = a.merge b bases ↔ IsMerge a b bases t :=
  ⟨(isMerge_iff.mp (isMerge_self a bases)).symm,
    isMerge_iff.mp (isMerge_merge_merge a b c bases bases'), fun _ => isMerge_iff.symm⟩

example : ((ofPaths "r.io" ["a.io", "a.io/b", "a.iox"]).merge (ofPaths "s.io" ["a.io/c"])
    ["a.io"]).packages.keys = ["a.io/c", "a.iox"] := by
  decide +kernel

end PackageTree

end DepSolver
