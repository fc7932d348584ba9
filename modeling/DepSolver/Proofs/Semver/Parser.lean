import DepSolver.Proofs.Except
import DepSolver.Proofs.Semver.Order
import DepSolver.Proofs.Text

/-!
What is read is valid: the fields of versions and of the comparators of requirements are ones that
versions can have.
-/

namespace DepSolver.Semver

variable {part last last' : Part} {mark : Char} {input rest : List Char} {fields : List String}
  {c : Comparator} {l : List Comparator}

private theorem isField_of_readFields (h : readFields part input = .ok (fields, rest)) :
    ∀ field ∈ fields, IsField part field := by
  simp only [readFields] at h
  split at h
  · cases h
  · rename_i hnone
    cases h
    intro field hfield
    obtain ⟨piece, hpiece, rfl⟩ := List.mem_map.mp hfield
    rw [IsField, String.toList_ofList, List.all_eq_true]
    refine ⟨fun c hc => ?_, List.findSome?_eq_none_iff.mp hnone _ hpiece⟩
    obtain ⟨hmem, hne⟩ := Text.mem_of_mem_splitAt hpiece hc
    simpa [hne] using List.mem_takeWhile_imp hmem

private theorem isField_of_readFieldsAfter
    (h : readFieldsAfter mark part last input = .ok ((fields, last'), rest)) :
    ∀ field ∈ fields, IsField part field := by
  rw [readFieldsAfter.eq_def] at h
  split at h
  · split at h
    · obtain ⟨result, hread, heq⟩ := exists_of_map_eq_ok h
      cases heq
      exact isField_of_readFields hread
    · cases h
      simp
  · cases h
    simp

/-- A comparator as it is read: it leaves no number open before one that it gives, and names a
prerelease only if it gives all of them. -/
inductive Comparator.IsWellFormed : Comparator → Prop
  | major (relation : Relation) (major : UInt64) : IsWellFormed ⟨relation, major, none, none, []⟩
  | minor (relation : Relation) (major minor : UInt64) :
      IsWellFormed ⟨relation, major, some minor, none, []⟩
  | patch (relation : Relation) (major minor patch : UInt64) (pre : List String) :
      IsWellFormed ⟨relation, major, some minor, some patch, pre⟩

namespace Requirement

private theorem isField_of_readComparator (h : readComparator input = .ok ((c, last), rest)) :
    ∀ field ∈ c.pre, IsField .pre field := by
  rw [readComparator] at h
  obtain ⟨⟨major, _⟩, -, h⟩ := exists_of_bind_eq_ok h
  obtain ⟨⟨minor, _⟩, -, h⟩ := exists_of_bind_eq_ok h
  obtain ⟨⟨patch, _⟩, -, h⟩ := exists_of_bind_eq_ok h
  dsimp only at h
  split at h
  · obtain ⟨⟨⟨pre, _⟩, _⟩, hpre, h⟩ := exists_of_bind_eq_ok h
    obtain ⟨⟨⟨build, _⟩, _⟩, -, h⟩ := exists_of_bind_eq_ok h
    cases h
    exact isField_of_readFieldsAfter hpre
  · cases h
    simp

private theorem readField_of_forall_ne {before : Field} (h : ∀ rest, input ≠ '.' :: rest) :
    readField part before input = .ok (.absent, input) := by
  rw [readField.eq_def]
  split
  · exact absurd rfl (h _)
  · rfl

private theorem forall_ne_of_readField {before : Field}
    (h : readField part before input = .ok (.absent, rest)) :
    rest = input ∧ ∀ below, input ≠ '.' :: below := by
  rw [readField.eq_def] at h
  split at h
  · split at h
    · cases h
    · split at h
      · cases h
      · obtain ⟨result, -, heq⟩ := exists_of_map_eq_ok h
        cases heq
  · rename_i hdot
    cases h
    exact ⟨rfl, fun below heq => hdot below heq⟩

private theorem toOption_eq_none_of_readField {minor patch : Field} {between : List Char}
    (hminor : readField .minor .absent input = .ok (minor, between))
    (hpatch : readField .patch minor between = .ok (patch, rest)) (hopen : minor.toOption = none) :
    patch.toOption = none := by
  cases minor with
  | number n => cases hopen
  | absent =>
      obtain ⟨rfl, hdot⟩ := forall_ne_of_readField hminor
      rw [readField_of_forall_ne hdot] at hpatch
      cases hpatch
      rfl
  | wildcard =>
      rw [readField.eq_def] at hpatch
      split at hpatch
      · split at hpatch
        · cases hpatch
          rfl
        · cases hpatch
      · cases hpatch
        rfl

private theorem isWellFormed_of_readComparator (h : readComparator input = .ok ((c, last), rest)) :
    c.IsWellFormed := by
  rw [readComparator] at h
  obtain ⟨⟨major, _⟩, -, h⟩ := exists_of_bind_eq_ok h
  obtain ⟨⟨minor, between⟩, hminor, h⟩ := exists_of_bind_eq_ok h
  obtain ⟨⟨patch, _⟩, hpatch, h⟩ := exists_of_bind_eq_ok h
  have hopen := toOption_eq_none_of_readField hminor hpatch
  dsimp only at h
  split at h
  · rename_i hcomplete
    obtain ⟨n, hn⟩ := Option.isSome_iff_exists.mp hcomplete
    cases hm : minor.toOption with
    | none =>
        rw [hopen hm] at hn
        cases hn
    | some m =>
        obtain ⟨⟨⟨pre, _⟩, _⟩, -, h⟩ := exists_of_bind_eq_ok h
        obtain ⟨⟨⟨build, _⟩, _⟩, -, h⟩ := exists_of_bind_eq_ok h
        cases h
        rw [hm, hn]
        exact .patch _ _ _ _ _
  · rename_i hpartial
    have hn : patch.toOption = none := by simpa using hpartial
    cases h
    rw [hn]
    cases minor.toOption with
    | none => exact .major _ _
    | some m => exact .minor _ _ _

private theorem forall_mem_of_readComparators {P : Comparator → Prop} {limit : Nat}
    (hread : ∀ {input rest c last}, readComparator input = .ok ((c, last), rest) → P c)
    (h : readComparators limit input = .ok l) : ∀ c ∈ l, P c := by
  induction limit generalizing input l with
  | zero => cases h
  | succ limit ih =>
      rw [readComparators] at h
      split at h
      · split at h
        · split at h <;> cases h
        · cases h
      · rename_i comparator last rest hfirst
        have hholds : P comparator := hread hfirst
        split at h
        · cases h
          simpa using hholds
        · obtain ⟨others, hothers, rfl⟩ := exists_of_map_eq_ok h
          exact List.forall_mem_cons.mpr ⟨hholds, ih hothers⟩
        · cases h

theorem forall_mem_of_parseChars {P : Comparator → Prop} {req : Requirement}
    (hread : ∀ {input rest c last}, readComparator input = .ok ((c, last), rest) → P c)
    (h : parseChars input = .ok req) : ∀ c ∈ req.comparators, P c := by
  rw [parseChars] at h
  split at h
  · split at h
    · cases h
      simp
    · cases h
    · cases h
  · obtain ⟨l, hlist, rfl⟩ := exists_of_map_eq_ok h
    exact forall_mem_of_readComparators hread hlist

theorem isField_of_parseChars {req : Requirement} (h : parseChars input = .ok req) :
    ∀ c ∈ req.comparators, ∀ field ∈ c.pre, IsField .pre field :=
  forall_mem_of_parseChars isField_of_readComparator h

theorem isWellFormed_of_parseChars {req : Requirement} (h : parseChars input = .ok req) :
    ∀ c ∈ req.comparators, c.IsWellFormed :=
  forall_mem_of_parseChars isWellFormed_of_readComparator h

end Requirement

end DepSolver.Semver
