import DepSolver.Ignore
import DepSolver.Proofs.Except
import DepSolver.Proofs.Table

/-!
Ignore rules by their patterns. What becomes of a list of patterns depends on which patterns stand
in it, apart from blanks, and not on their order or on how often they stand there.
-/

namespace DepSolver

theorem Glob.refusal?_eq_none_iff {globs : List Glob} :
    refusal? globs = none ↔ ∀ g ∈ globs,
      (g.subject = .extension ∨ g.subject = .expression) → g.isTooDeep = false := by
  rw [refusal?]
  cases hextension : globs.find? fun g => g.subject = .extension && g.isTooDeep with
  | some g =>
      have hg := List.find?_some hextension
      simp only [Bool.and_eq_true, decide_eq_true_eq] at hg
      simp only [reduceCtorEq, false_iff]
      intro hall
      have hdeep := hall g (List.mem_of_find?_eq_some hextension) (.inl hg.1)
      rw [hg.2] at hdeep
      cases hdeep
  | none =>
      rw [List.find?_eq_none] at hextension
      simp only [Bool.and_eq_true, decide_eq_true_eq, not_and, Bool.not_eq_true] at hextension
      simp only [Option.map_eq_none_iff, firstTooDeep?, List.findIdx?_eq_none_iff, List.mem_filter,
        decide_eq_true_eq, and_imp]
      constructor
      · rintro hexpression g hg (hsubject | hsubject)
        · exact hextension g hg hsubject
        · exact hexpression g hg hsubject
      · exact fun hall g hg hsubject => hall g hg (.inr hsubject)

namespace IgnoreRules

variable {patterns patterns' : List String} {rules rules' : IgnoreRules} {pattern : String}
  {rule : IgnoreRule} {l : List (String × IgnoreRule)}

/-- The patterns that count, without the blanks around them. -/
def kept (patterns : List String) : List String :=
  (patterns.map Text.trim).filter (!·.isEmpty)

theorem mem_kept : pattern ∈ kept patterns ↔ pattern ≠ "" ∧ pattern ∈ patterns.map Text.trim := by
  rw [kept, List.mem_filter, and_comm]
  simp

/-- A pattern with its rule. -/
def compiled (pattern : String) : Except Failure (String × IgnoreRule) := do
  return (pattern, ← IgnoreRule.ofPattern pattern)

theorem compiled_eq_ok_iff {x : String × IgnoreRule} :
    compiled pattern = .ok x ↔ x.1 = pattern ∧ IgnoreRule.ofPattern pattern = .ok x.2 := by
  obtain ⟨other, rule⟩ := x
  rw [compiled]
  cases hrule : IgnoreRule.ofPattern pattern with
  | error e => exact iff_of_false nofun (fun h => nomatch h.2)
  | ok found =>
      change Except.ok (pattern, found) = _ ↔ _
      simp [eq_comm]

theorem ofPatterns_eq_ok_iff : ofPatterns patterns = .ok rules ↔
    ∃ l, (kept patterns).mapM compiled = .ok l ∧
      Glob.refusal? (l.filterMap (·.2.glob?)) = Option.none ∧ rules = ⟨.ofList l⟩ := by
  have hbind : ofPatterns patterns = ((kept patterns).mapM compiled).bind fun l =>
      (Glob.refusal? (l.filterMap (·.2.glob?))).elim (.ok ⟨.ofList l⟩)
        fun reason => .error (.input s!"invalid ignore patterns: {reason}") := by
    rw [ofPatterns]
    change ((kept patterns).mapM compiled).bind _ = _
    congr 1
    funext l
    cases Glob.refusal? (l.filterMap (·.2.glob?)) <;> rfl
  rw [hbind]
  cases hl : (kept patterns).mapM compiled with
  | error e => simp [Except.bind]
  | ok l => cases hrefusal : Glob.refusal? (l.filterMap (·.2.glob?)) <;>
      simp [Except.bind, hrefusal, eq_comm]

theorem mem_of_mapM_compiled (h : (kept patterns).mapM compiled = .ok l) :
    (pattern, rule) ∈ l ↔ pattern ∈ kept patterns ∧ IgnoreRule.ofPattern pattern = .ok rule := by
  simp only [mem_iff_of_mapM_eq_ok h, compiled_eq_ok_iff]
  constructor
  · rintro ⟨other, hmem, rfl, hrule⟩
    exact ⟨hmem, hrule⟩
  · rintro ⟨hmem, hrule⟩
    exact ⟨pattern, hmem, rfl, hrule⟩

theorem get?_eq_some_iff_of_ofPatterns (h : ofPatterns patterns = .ok rules) :
    rules.rules.get? pattern = some rule ↔
      pattern ∈ kept patterns ∧ IgnoreRule.ofPattern pattern = .ok rule := by
  obtain ⟨l, hl, -, rfl⟩ := ofPatterns_eq_ok_iff.mp h
  rw [← mem_of_mapM_compiled hl]
  refine ⟨Table.mem_of_get?_ofList, fun hmem => ?_⟩
  obtain ⟨other, hother⟩ := Table.mem_keys_iff.mp
    (Table.mem_keys_ofList.mpr (List.mem_map_of_mem hmem))
  have hrule := ((mem_of_mapM_compiled hl).mp hmem).2
  have hother' := ((mem_of_mapM_compiled hl).mp (Table.mem_of_get?_ofList hother)).2
  rw [hother, Except.ok.inj (hrule.symm.trans hother')]

theorem mem_patterns_iff (h : ofPatterns patterns = .ok rules) :
    pattern ∈ rules.patterns ↔
      pattern ∈ kept patterns ∧ ∃ rule, IgnoreRule.ofPattern pattern = .ok rule := by
  rw [IgnoreRules.patterns, Table.mem_keys_iff]
  simp only [get?_eq_some_iff_of_ofPatterns h, exists_and_left]

theorem eq_of_patterns_eq (h : ofPatterns patterns = .ok rules)
    (h' : ofPatterns patterns' = .ok rules') (hpatterns : rules.patterns = rules'.patterns) :
    rules = rules' := by
  suffices hrules : rules.rules = rules'.rules from congrArg IgnoreRules.mk hrules
  apply Table.ext
  intro pattern
  apply Option.ext
  intro rule
  have hmem : pattern ∈ rules.patterns ↔ pattern ∈ rules'.patterns := by rw [hpatterns]
  rw [mem_patterns_iff h, mem_patterns_iff h'] at hmem
  rw [get?_eq_some_iff_of_ofPatterns h, get?_eq_some_iff_of_ofPatterns h']
  apply and_congr_left
  intro hrule
  simpa [hrule] using hmem

theorem ofPatterns_eq_of_mem_iff (h : ofPatterns patterns = .ok rules)
    (hkept : ∀ pattern, pattern ∈ kept patterns ↔ pattern ∈ kept patterns') :
    ofPatterns patterns' = .ok rules := by
  obtain ⟨l, hl, hrefusal, hrules⟩ := ofPatterns_eq_ok_iff.mp h
  have hcompiled : ∀ pattern ∈ kept patterns', ∃ x, compiled pattern = .ok x :=
    fun pattern hmem => exists_mapM_eq_ok_iff.mp ⟨l, hl⟩ pattern ((hkept pattern).mpr hmem)
  obtain ⟨l', hl'⟩ := exists_mapM_eq_ok_iff.mpr hcompiled
  have hmem : ∀ x, x ∈ l ↔ x ∈ l' := by
    rintro ⟨pattern, rule⟩
    rw [mem_of_mapM_compiled hl, mem_of_mapM_compiled hl', hkept]
  have hrefusal' : Glob.refusal? (l'.filterMap (·.2.glob?)) = Option.none := by
    rw [Glob.refusal?_eq_none_iff] at hrefusal ⊢
    simpa only [List.mem_filterMap, hmem] using hrefusal
  have h' : ofPatterns patterns' = .ok ⟨.ofList l'⟩ :=
    ofPatterns_eq_ok_iff.mpr ⟨l', hl', hrefusal', rfl⟩
  suffices htables : rules.rules = .ofList l' by rw [h', ← htables]
  apply Table.ext
  intro pattern
  apply Option.ext
  intro rule
  have hget : (Table.ofList l').get? pattern = some rule ↔ _ := get?_eq_some_iff_of_ofPatterns h'
  rw [get?_eq_some_iff_of_ofPatterns h, hkept, hget]

end IgnoreRules

end DepSolver
