import DepSolver.Proofs.Search.Constrained
import DepSolver.Proofs.Search.Next

/-!
Two searches side by side. Each has a source and inputs of its own. As long as the sources answer
alike about every project that is looked up, and the inputs constrain projects alike, both searches
take the same steps: their states agree, but for what is declared on projects whose declarations
are not heeded.
-/

namespace DepSolver

/-- Two results that are both values or both errors, related as values or as errors. -/
inductive ResultsMatch {ε ε' α β : Type} (errors : ε → ε' → Prop) (values : α → β → Prop) :
    Except ε α → Except ε' β → Prop
  | ok {a : α} {b : β} (h : values a b) : ResultsMatch errors values (.ok a) (.ok b)
  | error {e : ε} {e' : ε'} (h : errors e e') : ResultsMatch errors values (.error e) (.error e')

theorem ResultsMatch.imp {ε ε' α β : Type} {errors : ε → ε' → Prop} {values others : α → β → Prop}
    {x : Except ε α} {y : Except ε' β} (h : ResultsMatch errors values x y)
    (hothers : ∀ a b, x = .ok a → values a b → others a b) : ResultsMatch errors others x y := by
  cases h with
  | ok hab => exact .ok (hothers _ _ rfl hab)
  | error he => exact .error he

theorem ResultsMatch.refl {ε α : Type} {values : α → α → Prop} (h : ∀ a, values a a)
    (x : Except ε α) : ResultsMatch Eq values x x := by
  cases x with
  | ok a => exact .ok (h a)
  | error e => exact .error rfl

/-- A project that an import is looked up in. -/
def IsVisible (source : VersionSource) (p : Parameters) (root : ProjectRoot) : Prop :=
  ∃ path, p.hides path = false ∧ source.rootOf path = .ok root

/-- Manifests with the same constraints, but for those on the projects in a set. -/
def Manifest.AgreesOff (silent : Set ProjectRoot) (m m' : Manifest) : Prop :=
  ∀ root ∉ silent, m'.constraints.get? root = m.constraints.get? root

/-- The same packages of the same version, with manifests that agree. -/
structure Selection.AgreesOff (silent : Set ProjectRoot) (x y : Selection) : Prop where
  version_eq : y.version = x.version
  packages_eq : y.packages = x.packages
  tree_eq : y.tree = x.tree
  manifest : x.manifest.AgreesOff silent y.manifest

/-- States that agree in all but what is declared on the projects in a set. -/
structure SearchState.AgreesOff (silent : Set ProjectRoot) (s t : SearchState) : Prop where
  selected : ∀ root,
    Option.Rel (Selection.AgreesOff silent) (s.selected.get? root) (t.selected.get? root)
  required_eq : t.required = s.required
  imports_eq : t.imports = s.imports
  contributed_eq : ∀ root ∉ silent, t.contributed root = s.contributed root

namespace Search

/-- Sources that answer alike about every project that is looked up. -/
structure AnswersAlike (source source' : VersionSource) (p : Parameters)
    (silent : Set ProjectRoot) : Prop where
  rootOf_eq : ∀ path, p.hides path = false → source'.rootOf path = source.rootOf path
  versionsOf_eq : ∀ root, IsVisible source p root →
    source'.versionsOf root = source.versionsOf root
  treeAt_eq : ∀ root version, IsVisible source p root →
    source'.treeAt root version = source.treeAt root version
  manifestAt : ∀ root version, IsVisible source p root →
    ResultsMatch Eq (Manifest.AgreesOff silent) (source.manifestAt root version)
      (source'.manifestAt root version)

theorem AnswersAlike.refl (source : VersionSource) (p : Parameters) (silent : Set ProjectRoot) :
    AnswersAlike source source p silent where
  rootOf_eq _ _ := rfl
  versionsOf_eq _ _ := rfl
  treeAt_eq _ _ _ := rfl
  manifestAt _ _ _ := .refl (fun _ _ _ => rfl) _

/-! ### Steps that go alike -/

/-- Errors that are the same, or both say that a search has found nothing. -/
inductive ErrorsMatch (records : SearchRecord → SearchRecord → Prop) :
    SolveError → SolveError → Prop
  | same (e : SolveError) : ErrorsMatch records e e
  | unsatisfiable {r r' : SearchRecord} (hrecords : records r r') :
      ErrorsMatch records (.unsatisfiable r.toFailure) (.unsatisfiable r'.toFailure)

/-- What two steps come to: related values with related records, or errors that match. -/
abbrev OutcomesMatch {α β : Type} (records : SearchRecord → SearchRecord → Prop)
    (values : α → β → Prop) :
    Except SolveError (α × SearchRecord) → Except SolveError (β × SearchRecord) → Prop :=
  ResultsMatch (ErrorsMatch records) fun x y => values x.1 y.1 ∧ records x.2 y.2

/-- From related records two steps, each on its source, come to outcomes that match. -/
def GoAlike {α β : Type} (source source' : VersionSource)
    (records : SearchRecord → SearchRecord → Prop) (values : α → β → Prop) (m : SearchM α)
    (m' : SearchM β) : Prop :=
  ∀ r r', records r r' →
    OutcomesMatch records values (outcome source m r) (outcome source' m' r')

section GoAlike

variable {α β γ δ : Type} {source source' : VersionSource}
  {records : SearchRecord → SearchRecord → Prop} {values : α → β → Prop} {others : γ → δ → Prop}

theorem GoAlike.pure {a : α} {b : β} (h : values a b) :
    GoAlike source source' records values (pure a) (pure b) :=
  fun _ _ hrecords => .ok ⟨h, hrecords⟩

theorem GoAlike.throw (e : SolveError) :
    GoAlike source source' records values (throw e) (throw e) :=
  fun _ _ _ => .error (.same e)

theorem GoAlike.bind {m : SearchM α} {m' : SearchM β} {f : α → SearchM γ} {f' : β → SearchM δ}
    (h : GoAlike source source' records values m m')
    (hf : ∀ a b, values a b → GoAlike source source' records others (f a) (f' b)) :
    GoAlike source source' records others (m >>= f) (m' >>= f') := by
  intro r r' hrecords
  have hm := h r r' hrecords
  rw [outcome_bind, outcome_bind]
  generalize outcome source m r = o at hm ⊢
  generalize outcome source' m' r' = o' at hm ⊢
  cases hm with
  | ok hvalues => exact hf _ _ hvalues.1 _ _ hvalues.2
  | error herrors => exact .error herrors

theorem GoAlike.bind_checkpoint {m : SearchM α} {m' : SearchM β}
    (h : GoAlike source source' records values m m') :
    GoAlike source source' records values (checkpoint >>= fun _ => m)
      (checkpoint >>= fun _ => m') := by
  have hpoll : GoAlike source source' records (fun _ _ => True) checkpoint checkpoint :=
    fun _ _ hrecords => .ok ⟨trivial, hrecords⟩
  exact hpoll.bind fun _ _ _ => h

theorem GoAlike.bind_modify {m : SearchM α} {m' : SearchM β} {f f' : SearchRecord → SearchRecord}
    (hf : ∀ r r', records r r' → records (f r) (f' r'))
    (h : GoAlike source source' records values m m') :
    GoAlike source source' records values (modify f >>= fun _ => m)
      (modify f' >>= fun _ => m') := by
  have hmodify : GoAlike source source' records (fun _ _ => True) (modify f) (modify f') :=
    fun r r' hrecords => .ok ⟨trivial, hf r r' hrecords⟩
  exact hmodify.bind fun _ _ _ => h

end GoAlike

/-! ### Inputs that steer alike -/

/-- Conflicts that keep records related. -/
def ConflictsMatch (records : SearchRecord → SearchRecord → Prop) (c c' : ProjectConflict) : Prop :=
  ∀ r r', records r r' → records (r.add c) (r'.add c')

/-- Inputs that steer a search alike, whatever is declared on the silent projects. -/
structure SteersAlike (p q : Parameters) (silent : Set ProjectRoot)
    (records : SearchRecord → SearchRecord → Prop) : Prop where
  hides_eq : ∀ path, q.hides path = p.hides path
  ignored_eq : q.ignored = p.ignored
  lockedVersion?_eq : ∀ root, q.lockedVersion? root = p.lockedVersion? root
  constraintOn_eq : ∀ s t : SearchState, s.AgreesOff silent t → ∀ root,
    t.constraintOn q root = s.constraintOn p root
  conflict : ∀ s t : SearchState, s.AgreesOff silent t → ∀ root reason,
    ConflictsMatch records (s.conflict p root reason) (t.conflict q root reason)
  attempt : ∀ r r', records r r' →
    records { r with attempts := r.attempts + 1 } { r' with attempts := r'.attempts + 1 }

/-- States that agree and in which only visible projects are needed. -/
structure StatesMatch (source : VersionSource) (p : Parameters) (silent : Set ProjectRoot)
    (s t : SearchState) : Prop where
  agrees : s.AgreesOff silent t
  visible : ∀ root ∈ s.required.keys, IsVisible source p root

end Search

namespace SearchState

variable {silent : Set ProjectRoot} {s t : SearchState} {root : ProjectRoot} {d : Demand}

theorem AgreesOff.declared?_eq (h : s.AgreesOff silent t) (importer : ProjectRoot)
    (hroot : root ∉ silent) : t.declared? importer root = s.declared? importer root := by
  have hselected := h.selected importer
  rw [declared?, declared?]
  generalize s.selected.get? importer = x? at hselected ⊢
  generalize t.selected.get? importer = y? at hselected ⊢
  cases hselected with
  | none => rfl
  | some hxy =>
      simp only [Option.bind_eq_bind, Option.bind_some, hxy.manifest root hroot, hxy.version_eq]

theorem AgreesOff.record (h : s.AgreesOff silent t) (d : Demand) :
    (s.record d).AgreesOff silent (t.record d) where
  selected := h.selected
  required_eq := by simp only [SearchState.record, h.required_eq]
  imports_eq := by simp only [SearchState.record, h.imports_eq]
  contributed_eq root hroot := by
    by_cases hne : root = d.target
    · subst hne
      have hdeclared : (t.declared? · d.target) = (s.declared? · d.target) :=
        funext fun importer => h.declared?_eq importer hroot
      rw [contributed_record, contributed_record, h.contributed_eq d.target hroot, hdeclared]
    · rw [Search.contributed_record_of_ne hne, Search.contributed_record_of_ne hne,
        h.contributed_eq root hroot]

theorem AgreesOff.put (h : s.AgreesOff silent t) {x y : Selection} (hxy : x.AgreesOff silent y)
    (root : ProjectRoot) : (s.put root x).AgreesOff silent (t.put root y) where
  selected root' := by
    rw [get?_put, get?_put]
    split
    · exact .some hxy
    · exact h.selected root'
  required_eq := h.required_eq
  imports_eq := h.imports_eq
  contributed_eq := h.contributed_eq

theorem AgreesOff.pending_eq (h : s.AgreesOff silent t) : t.pending = s.pending := by
  rw [pending, pending, h.required_eq]
  congr 1
  funext root
  have hselected := h.selected root
  rw [Table.contains, Table.contains]
  generalize s.selected.get? root = x? at hselected ⊢
  generalize t.selected.get? root = y? at hselected ⊢
  cases hselected <;> rfl

theorem AgreesOff.map_selected_eq {α : Type} (h : s.AgreesOff silent t)
    (f g : ProjectRoot → Selection → α)
    (hfg : ∀ root x y, x.AgreesOff silent y → g root y = f root x) :
    t.selected.map g = s.selected.map f := by
  apply Table.ext
  intro root
  have hselected := h.selected root
  rw [Table.get?_map, Table.get?_map]
  generalize s.selected.get? root = x? at hselected ⊢
  generalize t.selected.get? root = y? at hselected ⊢
  cases hselected with
  | none => rfl
  | some hxy => exact congrArg some (hfg root _ _ hxy)

theorem AgreesOff.room_eq (h : s.AgreesOff silent t) : t.room = s.room := by
  have hmap := h.map_selected_eq (fun _ x => x.tree.packages.size * x.tree.importCount)
    (fun _ x => x.tree.packages.size * x.tree.importCount)
    fun root x y hxy => by rw [hxy.tree_eq]
  rw [room, room, ← Table.values_map, ← Table.values_map, hmap]

theorem AgreesOff.empty (silent : Set ProjectRoot) : AgreesOff silent .empty .empty where
  selected _ := .none
  required_eq := rfl
  imports_eq := rfl
  contributed_eq _ _ := rfl

end SearchState

namespace Search

variable {source : VersionSource} {p q : Parameters} {silent : Set ProjectRoot}
  {records : SearchRecord → SearchRecord → Prop} {s t : SearchState} {root : ProjectRoot}
  {d : Demand}

/-! ### Steps of states that agree -/

theorem SteersAlike.candidates_eq (h : SteersAlike p q silent records)
    (hagrees : s.AgreesOff silent t) (listed : List Version) :
    t.candidates q root listed = s.candidates p root listed := by
  rw [SearchState.candidates, SearchState.candidates, h.lockedVersion?_eq,
    h.constraintOn_eq s t hagrees]

private theorem required_of_meet {s' : SearchState} {imports : SortedSet String}
    (h : s.meet p d = .ok (s', imports)) : s'.required = (s.record d).required := by
  rcases SearchState.meet_eq_ok h with ⟨-, rfl, -⟩ | ⟨x, -, -, reach, -, rfl, -⟩ <;> rfl

theorem SteersAlike.meet (h : SteersAlike p q silent records) (hagrees : s.AgreesOff silent t)
    (d : Demand) :
    ResultsMatch (ConflictsMatch records) (fun a b => a.1.AgreesOff silent b.1 ∧ b.2 = a.2)
      (s.meet p d) (t.meet q d) := by
  have hrecord := hagrees.record d
  rw [SearchState.meet, SearchState.meet]
  dsimp only
  rw [h.constraintOn_eq _ _ hrecord]
  split
  · exact .error (h.conflict _ _ hrecord _ _)
  · have hselected := hrecord.selected d.target
    generalize (s.record d).selected.get? d.target = x? at hselected ⊢
    generalize (t.record d).selected.get? d.target = y? at hselected ⊢
    cases hselected with
    | none => exact .ok ⟨hrecord, rfl⟩
    | @some x y hxy =>
        dsimp only
        rw [hxy.version_eq, hxy.packages_eq, hxy.tree_eq, h.ignored_eq]
        split
        · exact .error (h.conflict _ _ hrecord _ _)
        · split
          · exact .ok ⟨hrecord, rfl⟩
          · split
            · exact .error (h.conflict _ _ hrecord _ _)
            · rename_i reach _
              have hgrown : Selection.AgreesOff silent
                  { x with packages := x.packages.union reach.internal }
                  ⟨x.version, x.packages.union reach.internal, x.tree, y.manifest⟩ :=
                ⟨rfl, rfl, rfl, hxy.manifest⟩
              exact .ok ⟨hrecord.put hgrown d.target, rfl⟩

theorem SteersAlike.select (h : SteersAlike p q silent records) (hagrees : s.AgreesOff silent t)
    (root : ProjectRoot) (version : Version) (tree : PackageTree) {manifest manifest' : Manifest}
    (hmanifest : manifest.AgreesOff silent manifest') :
    ResultsMatch (ConflictsMatch records) (fun a b => a.1.AgreesOff silent b.1 ∧ b.2 = a.2)
      (s.select p root version tree manifest) (t.select q root version tree manifest') := by
  have hreach : tree.reach ((t.required.get? root).getD .empty).toList q.ignored false =
      tree.reach ((s.required.get? root).getD .empty).toList p.ignored false := by
    rw [hagrees.required_eq, h.ignored_eq]
  rw [SearchState.select, SearchState.select]
  dsimp only
  rw [hreach]
  split
  · exact .error (h.conflict _ _ hagrees _ _)
  · rename_i reach _
    have hselection : Selection.AgreesOff silent ⟨version, reach.internal, tree, manifest⟩
        ⟨version, reach.internal, tree, manifest'⟩ := ⟨rfl, rfl, rfl, hmanifest⟩
    exact .ok ⟨hagrees.put hselection root, rfl⟩

theorem StatesMatch.meet (hstates : StatesMatch source p silent s t)
    (h : SteersAlike p q silent records) (hvisible : IsVisible source p d.target) :
    ResultsMatch (ConflictsMatch records)
      (fun a b => StatesMatch source p silent a.1 b.1 ∧ b.2 = a.2) (s.meet p d) (t.meet q d) := by
  refine (h.meet hstates.agrees d).imp fun a b ha hab => ⟨⟨hab.1, fun root hroot => ?_⟩, hab.2⟩
  rw [required_of_meet ha] at hroot
  rcases Table.mem_keys_insert.mp hroot with rfl | hroot
  · exact hvisible
  · exact hstates.visible root hroot

theorem StatesMatch.select (hstates : StatesMatch source p silent s t)
    (h : SteersAlike p q silent records) (root : ProjectRoot) (version : Version)
    (tree : PackageTree) {manifest manifest' : Manifest}
    (hmanifest : manifest.AgreesOff silent manifest') :
    ResultsMatch (ConflictsMatch records)
      (fun a b => StatesMatch source p silent a.1 b.1 ∧ b.2 = a.2)
      (s.select p root version tree manifest) (t.select q root version tree manifest') := by
  refine (h.select hstates.agrees root version tree hmanifest).imp fun a b ha hab =>
    ⟨⟨hab.1, fun root hroot => ?_⟩, hab.2⟩
  obtain ⟨reach, -, hput, -⟩ := SearchState.select_eq_ok ha
  rw [hput] at hroot
  exact hstates.visible root hroot

end Search

end DepSolver
