import DepSolver.Proofs.Search.Progress

/-!
Versions in place of others. A choice of versions demands the same, and serves as well, with other
versions of which the source serves the same and which satisfy the same constraints.
-/

namespace DepSolver

/-- A constraint that may count for a project: its override or, if it has none, what the inputs and
the manifests of the source demand of it. -/
inductive Parameters.Imposes (p : Parameters) (source : VersionSource) (root : ProjectRoot) :
    Constraint → Prop
  | override {c : MergedConstraint} (hoverride : p.constraints.overrides.get? root = some c) :
      Imposes p source root c.constraint
  | dependency {c : MergedConstraint} (hfree : p.constraints.overrides.get? root = none)
      (hdependency : p.constraints.dependencies.get? root = some c) :
      Imposes p source root (Contribution.interAll c.contributions)
  | declared {importer : ProjectRoot} {version : Version} {manifest : Manifest} {c : Constraint}
      (hfree : p.constraints.overrides.get? root = none)
      (hmanifest : source.manifestAt importer version = .ok manifest)
      (hdeclared : manifest.constraint? root = some c) : Imposes p source root c

namespace Search

variable {source : VersionSource} {p : Parameters} {σ : Assignment} {root : ProjectRoot}
  {v w version : Version}

/-- Two versions of a project of which a source serves the same, and which satisfy the same of the
constraints that may count. -/
structure IsInterchangeable (source : VersionSource) (p : Parameters) (root : ProjectRoot)
    (v w : Version) : Prop where
  tree : source.treeAt root v = source.treeAt root w
  manifest : source.manifestAt root v = source.manifestAt root w
  satisfiedBy : ∀ c, p.Imposes source root c → c.satisfiedBy v = c.satisfiedBy w

theorem IsInterchangeable.refl (v : Version) : IsInterchangeable source p root v v :=
  ⟨rfl, rfl, fun _ _ => rfl⟩

theorem IsInterchangeable.symm (h : IsInterchangeable source p root v w) :
    IsInterchangeable source p root w v :=
  ⟨h.tree.symm, h.manifest.symm, fun c hc => (h.satisfiedBy c hc).symm⟩

theorem IsInterchangeable.admits (h : IsInterchangeable source p root v w)
    {constraints : Set Constraint}
    (hdeclared : ∀ c ∈ constraints, ∃ importer version manifest,
      source.manifestAt importer version = .ok manifest ∧ manifest.constraint? root = some c)
    (hadmits : p.Admits root constraints v) : p.Admits root constraints w := by
  rw [Parameters.Admits] at hadmits ⊢
  split at hadmits
  · rename_i c hoverride
    rw [← h.satisfiedBy _ (.override hoverride)]
    exact hadmits
  · rename_i hfree
    refine ⟨fun c hc => ?_, fun c hc => ?_⟩
    · rw [← h.satisfiedBy _ (.dependency hfree hc)]
      exact hadmits.1 c hc
    · obtain ⟨importer, version, manifest, hmanifest, hconstraint⟩ := hdeclared c hc
      rw [← h.satisfiedBy _ (.declared hfree hmanifest hconstraint)]
      exact hadmits.2 c hc

/-- A choice with other versions in place of its own. -/
def replaced (σ : Assignment) (f : ProjectRoot → Version → Version) : Assignment :=
  fun root => (σ root).map (f root)

section Replaced

variable {f : ProjectRoot → Version → Version}

theorem demanded_replaced_iff
    (hf : ∀ root v, σ root = some v → IsInterchangeable source p root v (f root v))
    {importer : Option ProjectRoot} {path : String} :
    Demanded source p (replaced σ f) importer path ↔ Demanded source p σ importer path := by
  constructor
  · refine Demanded.of_treeAt fun root w tree hw htree => ?_
    obtain ⟨v, hv, rfl⟩ := Option.map_eq_some_iff.mp hw
    exact ⟨v, hv, (hf root v hv).tree.trans htree⟩
  · refine Demanded.of_treeAt fun root v tree hv htree => ?_
    exact ⟨f root v, Option.map_eq_some_iff.mpr ⟨v, hv, rfl⟩, (hf root v hv).tree.symm.trans htree⟩

theorem demandedOf_replaced
    (hf : ∀ root v, σ root = some v → IsInterchangeable source p root v (f root v))
    (root : ProjectRoot) :
    DemandedOf source p (replaced σ f) root = DemandedOf source p σ root := by
  ext path
  simp only [DemandedOf, Set.mem_ofPred_eq, demanded_replaced_iff hf]

private theorem declaredOn_replaced_subset
    (hf : ∀ root v, σ root = some v → IsInterchangeable source p root v (f root v))
    (root : ProjectRoot) :
    DeclaredOn source p (replaced σ f) root ⊆ DeclaredOn source p σ root := by
  rintro c ⟨importer, path, w, manifest, hdemanded, hroot, hw, hmanifest, hdeclares⟩
  obtain ⟨v, hv, rfl⟩ := Option.map_eq_some_iff.mp hw
  exact ⟨importer, path, v, manifest, (demanded_replaced_iff hf).mp hdemanded, hroot, hv,
    (hf importer v hv).manifest.trans hmanifest, hdeclares⟩

theorem IsServed.replaced (h : IsServed source p σ root version)
    (hf : ∀ root v, σ root = some v → IsInterchangeable source p root v (f root v)) :
    IsServed source p (replaced σ f) root (f root version) := by
  have hsame := hf root version h.chosen
  refine ⟨Option.map_eq_some_iff.mpr ⟨version, h.chosen, rfl⟩, ?_, ?_, ?_⟩
  · rw [← hsame.tree, demandedOf_replaced hf]
    exact h.packages
  · rw [← hsame.manifest]
    exact h.manifest
  · refine (hsame.admits ?_ h.admits).anti (declaredOn_replaced_subset hf root)
    rintro c ⟨importer, -, v, manifest, -, -, -, hmanifest, hdeclared⟩
    exact ⟨importer, v, manifest, hmanifest, hdeclared⟩

theorem Serves.replaced (h : Serves source p σ)
    (hf : ∀ root v, σ root = some v → IsInterchangeable source p root v (f root v)) :
    Serves source p (replaced σ f) := by
  intro root path hpath
  rw [demandedOf_replaced hf] at hpath
  obtain ⟨v, hserved⟩ := h root path hpath
  exact ⟨f root v, hserved.replaced hf⟩

end Replaced

end Search

end DepSolver
