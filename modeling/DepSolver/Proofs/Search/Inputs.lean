import DepSolver.Proofs.Constraint
import DepSolver.Proofs.Constraint.Text
import DepSolver.Proofs.Ignore
import DepSolver.Proofs.SortedSet
import DepSolver.Proofs.Table
import DepSolver.Search.Parameters

/-!
What the lines of the inputs tell. Each line begins with a word for its kind, so that the lines of
one kind are told from the others; and where names have no spaces and no line ends in them, a line
tells all that it was written from, but for what the text of a constraint leaves out.
-/

namespace DepSolver

/-! ### Lines by their kinds -/

namespace Text

/-- The first word of a line. -/
def keyword (line : String) : List Char := line.toList.takeWhile (· ≠ ' ')

private theorem keyword_eq {kind : String} (h : ' ' ∉ kind.toList) (rest : String) :
    keyword (kind ++ " " ++ rest) = kind.toList := by
  have hrun : ∀ c ∈ kind.toList, decide (c ≠ ' ') = true := by
    intro c hc
    rw [decide_eq_true_eq]
    rintro rfl
    exact h hc
  rw [keyword, String.toList_append, String.toList_append, List.append_assoc]
  exact takeWhile_append_of_head hrun (by simp)

/-- Lines under the word that each of them begins with. -/
def IsSection (x : String × List String) : Prop := ∀ line ∈ x.2, keyword line = x.1.toList

private theorem eq_of_flatMap_sections_eq {l l' : List (String × List String)}
    (hkeys : l.map (·.1) = l'.map (·.1)) (hnodup : (l.map (·.1)).Nodup)
    (hl : ∀ x ∈ l, IsSection x) (hl' : ∀ x ∈ l', IsSection x)
    (h : l.flatMap (·.2) = l'.flatMap (·.2)) : l = l' := by
  induction l generalizing l' with
  | nil => exact (List.map_eq_nil_iff.mp hkeys.symm).symm
  | cons x rest ih =>
      cases l' with
      | nil => cases hkeys
      | cons y rest' =>
          obtain ⟨kind, lines⟩ := x
          obtain ⟨kind', lines'⟩ := y
          obtain ⟨hkinds, htail⟩ := List.cons.inj hkeys
          obtain rfl : kind = kind' := hkinds
          obtain ⟨hkind, hnodup⟩ := List.nodup_cons.mp hnodup
          obtain ⟨hlines, hrest⟩ := List.forall_mem_cons.mp hl
          obtain ⟨hlines', hrest'⟩ := List.forall_mem_cons.mp hl'
          have hhead : ∀ sections : List (String × List String), (∀ x ∈ sections, IsSection x) →
              kind ∉ sections.map (·.1) → ∀ line ∈ (sections.flatMap (·.2)).head?,
                decide (keyword line = kind.toList) = false := by
            intro sections hsections hnone line hline
            obtain ⟨section', hmem, hline⟩ := List.mem_flatMap.mp (List.mem_of_mem_head? hline)
            rw [hsections _ hmem _ hline, decide_eq_false_iff_not, String.toList_inj]
            rintro rfl
            exact hnone (List.mem_map_of_mem hmem)
          obtain ⟨rfl, hflat⟩ := append_inj_of_run
            (fun line hline => decide_eq_true (hlines line hline))
            (fun line hline => decide_eq_true (hlines' line hline)) (hhead rest hrest hkind)
            (hhead rest' hrest' (htail ▸ hkind)) h
          rw [ih htail hnodup hrest hrest' hflat]

end Text

namespace Parameters

/-- The lines of the inputs under the words that they begin with. -/
def sections (p : Parameters) : List (String × List String) := [
  ("root", [s!"root {p.rootTree.importRoot}"]),
  ("import", p.externalImports.toList.map ("import " ++ ·)),
  ("constraint", constraintLines .dependency p.constraints.dependencies),
  ("override", constraintLines .override p.constraints.overrides),
  ("ignored", p.ignored.patterns.map ("ignored " ++ ·)),
  ("required", p.required.toList.map ("required " ++ ·)),
  ("local", p.localRoots.toList.map ("local " ++ ·.path))]

private theorem flatMap_sections (p : Parameters) : p.sections.flatMap (·.2) = p.inputLines := by
  rw [sections, inputLines]
  simp only [List.flatMap_cons, List.flatMap_nil, List.append_nil, List.append_assoc]

private theorem isSection_map {α : Type} (kind : String) (hkind : ' ' ∉ kind.toList) (l : List α)
    (f : α → String) : Text.IsSection (kind, l.map fun a => kind ++ " " ++ f a) := by
  intro line hline
  obtain ⟨a, -, rfl⟩ := List.mem_map.mp hline
  exact Text.keyword_eq hkind (f a)

theorem constraintLines_eq (kind : ConstraintKind) (t : Table ProjectRoot MergedConstraint) :
    constraintLines kind t = t.entries.map fun x =>
      kind.name ++ " " ++ (x.1.path ++ " " ++ (toString x.2.constraint ++ " " ++
        x.2.source.getD "-")) := by
  rw [constraintLines]
  apply List.map_congr_left
  rintro ⟨root, c⟩ -
  simp only [String.append_assoc]
  rfl

private theorem isSection_of_mem_sections (p : Parameters) : ∀ x ∈ p.sections, Text.IsSection x
    := by
  rw [sections, constraintLines_eq, constraintLines_eq]
  simp only [List.forall_mem_cons]
  exact ⟨isSection_map "root" (by decide) [p.rootTree.importRoot] id,
    isSection_map "import" (by decide) _ id, isSection_map "constraint" (by decide) _ _,
    isSection_map "override" (by decide) _ _, isSection_map "ignored" (by decide) _ id,
    isSection_map "required" (by decide) _ id, isSection_map "local" (by decide) _ ProjectRoot.path,
    fun _ hmem => nomatch hmem⟩

/-! ### What plain lines tell -/

/-- The names on a constraint line have no spaces, and the constraint is plain. -/
structure IsPlainEntry (x : ProjectRoot × MergedConstraint) : Prop where
  root : ' ' ∉ x.1.path.toList
  source : ' ' ∉ (x.2.source.getD "-").toList
  constraint : x.2.constraint.IsPlain

/-- Constraints are merged, ignore rules are compiled, packages stand at their own import paths, and
no name hides where a line or a word of the inputs ends. -/
structure IsPlain (p : Parameters) : Prop where
  merged : p.constraints.IsMerged
  compiled : ∃ patterns, IgnoreRules.ofPatterns patterns = .ok p.ignored
  keyed : ∀ path x, p.rootTree.get? path = some (.package x) → x.importPath = path
  lines : ∀ line ∈ p.inputLines, '\n' ∉ line.toList
  dependencies : ∀ x ∈ p.constraints.dependencies.entries, IsPlainEntry x
  overrides : ∀ x ∈ p.constraints.overrides.entries, IsPlainEntry x

theorem IsPlainEntry.eq_of_line_eq {kind : String} {x y : ProjectRoot × MergedConstraint}
    (hx : IsPlainEntry x) (hy : IsPlainEntry y)
    (h : kind ++ " " ++ (x.1.path ++ " " ++ (toString x.2.constraint ++ " " ++
        x.2.source.getD "-")) =
      kind ++ " " ++ (y.1.path ++ " " ++ (toString y.2.constraint ++ " " ++
        y.2.source.getD "-"))) :
    x.1 = y.1 ∧ toString x.2.constraint = toString y.2.constraint := by
  have hspace : ∀ s rest : String, (s ++ " " ++ rest).toList = s.toList ++ ' ' :: rest.toList := by
    intro s rest
    rw [String.toList_append, String.toList_append, List.append_assoc]
    rfl
  have hchars := congrArg String.toList h
  simp only [hspace] at hchars
  have hrest := (List.cons.inj (List.append_cancel_left hchars)).2
  obtain ⟨hroot, hrest⟩ := Text.append_cons_inj hx.root hy.root hrest
  obtain ⟨htext, -⟩ := Text.append_cons_inj_of_last hx.source hy.source hrest
  refine ⟨?_, String.toList_inj.mp htext⟩
  exact congrArg ProjectRoot.mk (String.toList_inj.mp hroot)

private theorem map_toString_eq_of_constraintLines_eq {kind : ConstraintKind}
    {t u : Table ProjectRoot MergedConstraint} (ht : ∀ x ∈ t.entries, IsPlainEntry x)
    (hu : ∀ x ∈ u.entries, IsPlainEntry x) (h : constraintLines kind t = constraintLines kind u) :
    t.map (fun _ c => toString c.constraint) = u.map fun _ c => toString c.constraint := by
  rw [constraintLines_eq, constraintLines_eq] at h
  have hentries : t.entries.map (fun x => (x.1, toString x.2.constraint)) =
      u.entries.map fun x => (x.1, toString x.2.constraint) :=
    Text.map_eq_map_of_forall (fun x hx y hy hline =>
      Prod.ext_iff.mpr ((ht x hx).eq_of_line_eq (hu y hy) hline)) h
  apply Table.ext_mem
  intro entry
  change entry ∈ t.entries.map _ ↔ entry ∈ u.entries.map _
  rw [hentries]

private theorem constraint_eq_of_constraintLines_eq {kind : ConstraintKind}
    {t u : Table ProjectRoot MergedConstraint} (ht : ∀ x ∈ t.entries, IsPlainEntry x)
    (hu : ∀ x ∈ u.entries, IsPlainEntry x)
    (hprereleases : ∀ root c d, t.get? root = some c → u.get? root = some d →
      c.constraint.prereleases? = d.constraint.prereleases?)
    (h : constraintLines kind t = constraintLines kind u) (root : ProjectRoot) :
    (u.get? root).map (·.constraint) = (t.get? root).map (·.constraint) := by
  have hmap := congrArg (·.get? root) (map_toString_eq_of_constraintLines_eq ht hu h)
  simp only [Table.get?_map] at hmap
  cases hc : t.get? root with
  | none =>
      rw [hc, Option.map_none, eq_comm, Option.map_eq_none_iff] at hmap
      rw [hmap]
  | some c =>
      rw [hc, Option.map_some, eq_comm, Option.map_eq_some_iff] at hmap
      obtain ⟨d, hd, htext⟩ := hmap
      have hplain := (ht _ (Table.get?_eq_some_iff.mp hc)).constraint
      have hplain' := (hu _ (Table.get?_eq_some_iff.mp hd)).constraint
      rw [hd, Option.map_some, Option.map_some,
        hplain.eq_of_toString_eq hplain' (hprereleases root c d hc hd) htext.symm]

/-! ### What equal lines tell -/

/-- Constraints on the same projects agree in what their texts leave out. -/
def AgreesInPrereleases (t u : Table ProjectRoot MergedConstraint) : Prop :=
  ∀ root c d, t.get? root = some c → u.get? root = some d →
    c.constraint.prereleases? = d.constraint.prereleases?

/-- Inputs that agree in what lines record of them. -/
structure AgreesInRecord (p q : Parameters) : Prop where
  importRoot_eq : q.rootTree.importRoot = p.rootTree.importRoot
  externalImports_eq : q.externalImports = p.externalImports
  dependency_eq : ∀ root, (q.constraints.dependencies.get? root).map (·.constraint) =
    (p.constraints.dependencies.get? root).map (·.constraint)
  override_eq : ∀ root, (q.constraints.overrides.get? root).map (·.constraint) =
    (p.constraints.overrides.get? root).map (·.constraint)
  ignored_eq : q.ignored = p.ignored
  required_eq : q.required = p.required
  localRoots_eq : q.localRoots = p.localRoots

/-- Plain inputs with the same lines agree in their record. -/
theorem IsPlain.agreesInRecord {p q : Parameters} (hp : p.IsPlain) (hq : q.IsPlain)
    (hdependencies : AgreesInPrereleases p.constraints.dependencies q.constraints.dependencies)
    (hoverrides : AgreesInPrereleases p.constraints.overrides q.constraints.overrides)
    (h : p.inputLines = q.inputLines) : p.AgreesInRecord q := by
  have hsections : p.sections = q.sections := by
    have hkeys : p.sections.map (·.1) = q.sections.map (·.1) := rfl
    have hflat : p.sections.flatMap (·.2) = q.sections.flatMap (·.2) := by
      rw [flatMap_sections, flatMap_sections, h]
    exact Text.eq_of_flatMap_sections_eq hkeys (by simp [sections]) p.isSection_of_mem_sections
      q.isSection_of_mem_sections hflat
  simp only [sections, List.cons.injEq, Prod.mk.injEq, true_and, and_true] at hsections
  obtain ⟨hroot, himports, hdependency, hoverride, hignored, hrequired, hlocal⟩ := hsections
  obtain ⟨patterns, hpatterns⟩ := hp.compiled
  obtain ⟨patterns', hpatterns'⟩ := hq.compiled
  have hinjective : ∀ kind, Function.Injective (List.map (kind ++ ·)) := fun kind =>
    List.map_injective_iff.mpr (Text.append_injective kind)
  have hpath : Function.Injective ProjectRoot.path := by
    rintro ⟨path⟩ ⟨path'⟩ heq
    exact congrArg ProjectRoot.mk heq
  exact {
    importRoot_eq := (Text.append_injective "root " hroot).symm
    externalImports_eq := (SortedSet.toList_injective (hinjective _ himports)).symm
    dependency_eq := constraint_eq_of_constraintLines_eq hp.dependencies hq.dependencies
      hdependencies hdependency
    override_eq := constraint_eq_of_constraintLines_eq hp.overrides hq.overrides hoverrides
      hoverride
    ignored_eq := (IgnoreRules.eq_of_patterns_eq hpatterns hpatterns'
      (hinjective _ hignored)).symm
    required_eq := (SortedSet.toList_injective (hinjective _ hrequired)).symm
    localRoots_eq := (SortedSet.toList_injective (List.map_injective_iff.mpr
      ((Text.append_injective "local ").comp hpath) hlocal)).symm }

/-! ### The text of a digest -/

/-- The text that the digest of the inputs is taken of. -/
def digestedText (p : Parameters) : String := String.join (p.inputLines.map (· ++ "\n"))

theorem inputsDigest_eq (p : Parameters) : p.inputsDigest = Digest.ofText p.digestedText := rfl

theorem IsPlain.inputLines_eq {p q : Parameters} (hp : p.IsPlain) (hq : q.IsPlain)
    (h : p.digestedText = q.digestedText) : p.inputLines = q.inputLines :=
  Text.eq_of_join_lines_eq hp.lines hq.lines h

end Parameters

end DepSolver
