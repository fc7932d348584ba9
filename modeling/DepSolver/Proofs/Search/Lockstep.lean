import DepSolver.Proofs.Search.SideBySide

/-!
Searches in lockstep. Every part of a search, taken on two sources that answer alike and with inputs
that steer alike, goes the same way in both: it asks about the same projects, tries the same
versions and ends with states that agree or with errors that match.
-/

namespace DepSolver.Search

variable {source source' : VersionSource} {p q : Parameters} {silent : Set ProjectRoot}
  {records : SearchRecord → SearchRecord → Prop} {s t : SearchState} {root : ProjectRoot}

/-! ### Demands -/

theorem AnswersAlike.goAlike_rootOf (h : AnswersAlike source source' p silent) {path : String}
    (hpath : p.hides path = false) :
    GoAlike source source' records (fun a b => b = a ∧ IsVisible source p a) (rootOf path)
      (rootOf path) := by
  intro r r' hrecords
  rw [outcome_rootOf, outcome_rootOf, h.rootOf_eq path hpath]
  cases hroot : source.rootOf path with
  | ok root => exact .ok ⟨⟨rfl, path, hpath, hroot⟩, hrecords⟩
  | error e => exact .error (.same _)

theorem AnswersAlike.goAlike_groupImports_go (h : AnswersAlike source source' p silent)
    (hsteers : SteersAlike p q silent records) (owner : Option ProjectRoot) (imports : List String)
    (grouped : Table ProjectRoot (SortedSet String))
    (hvisible : ∀ root ∈ grouped.keys, IsVisible source p root) :
    GoAlike source source' records (fun a b => b = a ∧ ∀ root ∈ a.keys, IsVisible source p root)
      (groupImports.go p owner grouped imports) (groupImports.go q owner grouped imports) := by
  induction imports generalizing grouped with
  | nil => exact .pure ⟨rfl, hvisible⟩
  | cons path rest ih =>
      rw [groupImports.go, groupImports.go, hsteers.hides_eq]
      split
      · exact ih grouped hvisible
      · rename_i hpath
        rw [Bool.not_eq_true] at hpath
        refine (h.goAlike_rootOf hpath).bind ?_
        rintro _ root ⟨rfl, hroot⟩
        split
        · exact ih grouped hvisible
        · refine ih _ fun root' hmem => ?_
          rcases Table.mem_keys_insert.mp hmem with rfl | hmem
          · exact hroot
          · exact hvisible root' hmem

theorem AnswersAlike.goAlike_demands (h : AnswersAlike source source' p silent)
    (hsteers : SteersAlike p q silent records) (importer : Option ProjectRoot)
    (imports : SortedSet String) :
    GoAlike source source' records
      (fun a b => b = a ∧ ∀ d ∈ a, IsVisible source p d.target) (demands p importer imports)
      (demands q importer imports) := by
  refine (h.goAlike_groupImports_go hsteers importer imports.toList .empty
    (fun root hmem => nomatch hmem)).bind ?_
  rintro _ grouped ⟨rfl, hvisible⟩
  refine .pure ⟨rfl, fun d hd => ?_⟩
  obtain ⟨entry, hentry, rfl⟩ := List.mem_map.mp hd
  exact hvisible entry.1 (List.mem_map_of_mem hentry)

theorem AnswersAlike.goAlike_rootDemands (h : AnswersAlike source source' p silent)
    (hsteers : SteersAlike p q silent records) (htree : q.rootTree = p.rootTree)
    (hrequired : q.required = p.required) :
    GoAlike source source' records
      (fun a b => b = a ∧ ∀ d ∈ a, IsVisible source p d.target) (rootDemands p)
      (rootDemands q) := by
  rw [rootDemands, rootDemands, Parameters.ownSeeds, Parameters.ownSeeds, htree, hrequired,
    hsteers.ignored_eq]
  dsimp only
  split
  · exact h.goAlike_demands hsteers none _
  · exact .throw _
  · exact .throw _

/-! ### Meeting demands -/

theorem AnswersAlike.goAlike_expand (h : AnswersAlike source source' p silent)
    (hsteers : SteersAlike p q silent records) (fuel : Nat) (work : List Demand)
    (hstates : StatesMatch source p silent s t)
    (hwork : ∀ d ∈ work, IsVisible source p d.target) :
    GoAlike source source' records
      (ResultsMatch (ConflictsMatch records) (StatesMatch source p silent))
      (expand p fuel s work) (expand q fuel t work) := by
  induction fuel generalizing s t work with
  | zero =>
      cases work with
      | nil => exact .pure (.ok hstates)
      | cons d work => exact .throw _
  | succ fuel ih =>
      cases work with
      | nil => exact .pure (.ok hstates)
      | cons d work =>
          obtain ⟨hd, hwork⟩ := List.forall_mem_cons.mp hwork
          have hmeet := hstates.meet hsteers hd
          rw [expand, expand]
          generalize s.meet p d = x at hmeet ⊢
          generalize t.meet q d = y at hmeet ⊢
          cases hmeet with
          | error hconflict => exact .pure (.error hconflict)
          | @ok a b hab =>
              obtain ⟨s', _⟩ := a
              obtain ⟨t', imports⟩ := b
              obtain ⟨hnext, rfl⟩ := hab
              refine (h.goAlike_demands hsteers (some d.target) imports).bind ?_
              rintro _ more ⟨rfl, hmore⟩
              exact ih (work ++ more) hnext (List.forall_mem_append.mpr ⟨hwork, hmore⟩)

theorem AnswersAlike.goAlike_meetAll (h : AnswersAlike source source' p silent)
    (hsteers : SteersAlike p q silent records) {work : List Demand}
    (hstates : StatesMatch source p silent s t)
    (hwork : ∀ d ∈ work, IsVisible source p d.target) :
    GoAlike source source' records
      (ResultsMatch (ConflictsMatch records) (StatesMatch source p silent))
      (meetAll p s work) (meetAll q t work) := by
  rw [meetAll, meetAll, hstates.agrees.room_eq]
  exact h.goAlike_expand hsteers _ work hstates hwork

/-! ### Decisions -/

theorem AnswersAlike.goAlike_versions? (h : AnswersAlike source source' p silent)
    (hvisible : IsVisible source p root) :
    GoAlike source source' records (fun a b => b = a) (versions? root) (versions? root) := by
  intro r r' hrecords
  rw [outcome_versions?, outcome_versions?, h.versionsOf_eq root hvisible]
  cases source.versionsOf root with
  | ok listed => exact .ok ⟨rfl, hrecords⟩
  | error e =>
      cases e with
      | notFound owner => exact .ok ⟨rfl, hrecords⟩
      | fetch owner message => exact .error (.same _)

theorem AnswersAlike.goAlike_askTree (h : AnswersAlike source source' p silent)
    (hvisible : IsVisible source p root) (version : Version) :
    GoAlike source source' records (fun a b => b = a) (ask (.tree root version))
      (ask (.tree root version)) :=
  fun _ _ hrecords => .ok ⟨h.treeAt_eq root version hvisible, hrecords⟩

theorem AnswersAlike.goAlike_askManifest (h : AnswersAlike source source' p silent)
    (hvisible : IsVisible source p root) (version : Version) :
    GoAlike source source' records (ResultsMatch Eq (Manifest.AgreesOff silent))
      (ask (.manifest root version)) (ask (.manifest root version)) :=
  fun _ _ hrecords => .ok ⟨h.manifestAt root version hvisible, hrecords⟩

private theorem better_eq_or (best : Option ((Bool × Nat) × ProjectRoot)) (key : Bool × Nat)
    (root : ProjectRoot) :
    better best key root = some (key, root) ∨ better best key root = best := by
  cases best with
  | none => exact .inl rfl
  | some _ =>
      rw [better]
      split
      · exact .inl rfl
      · exact .inr rfl

theorem AnswersAlike.goAlike_nextAmong (h : AnswersAlike source source' p silent)
    (hsteers : SteersAlike p q silent records) (best : Option ((Bool × Nat) × ProjectRoot))
    (roots : List ProjectRoot)
    (hbest : ∀ key root, best = some (key, root) → IsVisible source p root)
    (hroots : ∀ root ∈ roots, IsVisible source p root) :
    GoAlike source source' records
      (fun a b => b = a ∧ ∀ root, a = some root → IsVisible source p root)
      (nextAmong p best roots) (nextAmong q best roots) := by
  induction roots generalizing best with
  | nil =>
      refine .pure ⟨rfl, fun root hroot => ?_⟩
      obtain ⟨⟨key, _⟩, hsome, rfl⟩ := Option.map_eq_some_iff.mp hroot
      exact hbest key _ hsome
  | cons root rest ih =>
      obtain ⟨hroot, hrest⟩ := List.forall_mem_cons.mp hroots
      rw [nextAmong, nextAmong]
      refine (h.goAlike_versions? hroot).bind ?_
      rintro _ listed rfl
      rw [hsteers.lockedVersion?_eq]
      refine ih _ (fun key root' hbetter => ?_) hrest
      rcases better_eq_or best _ root with heq | heq
      · rw [heq] at hbetter
        cases hbetter
        exact hroot
      · exact hbest key root' (heq ▸ hbetter)

theorem AnswersAlike.goAlike_next (h : AnswersAlike source source' p silent)
    (hsteers : SteersAlike p q silent records) (hstates : StatesMatch source p silent s t) :
    GoAlike source source' records
      (fun a b => b = a ∧ ∀ root, a = some root → IsVisible source p root)
      (nextAmong p none s.pending) (nextAmong q none t.pending) := by
  rw [hstates.agrees.pending_eq]
  exact h.goAlike_nextAmong hsteers none s.pending (fun _ _ hbest => nomatch hbest)
    fun root hroot => hstates.visible root (List.mem_of_mem_filter hroot)

theorem AnswersAlike.goAlike_open? (h : AnswersAlike source source' p silent)
    (hsteers : SteersAlike p q silent records) (hstates : StatesMatch source p silent s t)
    (hvisible : IsVisible source p root) :
    GoAlike source source' records (ResultsMatch (ConflictsMatch records) fun a b => b = a)
      (open? p s root) (open? q t root) := by
  have hconflict := hsteers.conflict s t hstates.agrees root
  rw [open?, open?, hsteers.constraintOn_eq s t hstates.agrees]
  split
  · exact .pure (.error (hconflict _))
  · refine (h.goAlike_versions? hvisible).bind ?_
    rintro _ listed rfl
    cases listed with
    | none => exact .pure (.error (hconflict _))
    | some listed =>
        dsimp only
        rw [hsteers.candidates_eq hstates.agrees listed]
        split
        · exact .pure (.error (hconflict _))
        · exact .pure (.ok rfl)

theorem AnswersAlike.goAlike_trySelect (h : AnswersAlike source source' p silent)
    (hsteers : SteersAlike p q silent records) (hstates : StatesMatch source p silent s t)
    (hvisible : IsVisible source p root) (version : Version) :
    GoAlike source source' records
      (ResultsMatch (ConflictsMatch records) (StatesMatch source p silent))
      (trySelect p s root version) (trySelect q t root version) := by
  have hconflict := hsteers.conflict s t hstates.agrees root
  rw [trySelect, trySelect]
  refine (h.goAlike_askTree hvisible version).bind ?_
  rintro _ tree? rfl
  match tree? with
  | .error (.notFound _) => exact .pure (.error (hconflict _))
  | .error (.fetch _ _) => exact .throw _
  | .ok tree =>
      refine (h.goAlike_askManifest hvisible version).bind fun x y hxy => ?_
      cases hxy with
      | @error e _ heq =>
          subst heq
          match e with
          | .notFound _ => exact .pure (.error (hconflict _))
          | .fetch _ _ => exact .throw _
      | @ok manifest manifest' hmanifest =>
          have hselect := hstates.select hsteers root version tree hmanifest
          dsimp only
          generalize s.select p root version tree manifest = a at hselect ⊢
          generalize t.select q root version tree manifest' = b at hselect ⊢
          cases hselect with
          | error hselected => exact .pure (.error hselected)
          | @ok a b hab =>
              obtain ⟨s', _⟩ := a
              obtain ⟨t', imports⟩ := b
              obtain ⟨hnext, rfl⟩ := hab
              refine (h.goAlike_demands hsteers (some root) imports).bind ?_
              rintro _ work ⟨rfl, hwork⟩
              exact h.goAlike_meetAll hsteers hnext hwork

/-! ### Exploring -/

theorem AnswersAlike.goAlike_attempt (h : AnswersAlike source source' p silent)
    (hsteers : SteersAlike p q silent records)
    {goOn goOn' : SearchState → SearchM (Option SearchState)}
    (hgoOn : ∀ s t, StatesMatch source p silent s t → GoAlike source source' records
      (Option.Rel (StatesMatch source p silent)) (goOn s) (goOn' t))
    (hstates : StatesMatch source p silent s t) (hvisible : IsVisible source p root)
    (candidates : List Version) :
    GoAlike source source' records (Option.Rel (StatesMatch source p silent))
      (attempt p goOn s root candidates) (attempt q goOn' t root candidates) := by
  induction candidates with
  | nil => exact .bind_checkpoint (.pure .none)
  | cons version rest ih =>
      rw [attempt, attempt]
      refine .bind_checkpoint (.bind_modify hsteers.attempt ?_)
      refine (h.goAlike_trySelect hsteers hstates hvisible version).bind fun x y hxy => ?_
      cases hxy with
      | error hconflict => exact .bind_modify hconflict ih
      | ok hnext =>
          refine (hgoOn _ _ hnext).bind fun solved? solved?' hsolved => ?_
          cases hsolved with
          | none => exact ih
          | some hmatch => exact .pure (.some hmatch)

/-- Exploring states that agree goes alike, by induction on the number of decisions left. -/
theorem AnswersAlike.goAlike_explore (h : AnswersAlike source source' p silent)
    (hsteers : SteersAlike p q silent records) (limit : Nat)
    (hstates : StatesMatch source p silent s t) :
    GoAlike source source' records (Option.Rel (StatesMatch source p silent))
      (explore p limit s) (explore q limit t) := by
  induction limit generalizing s t with
  | zero =>
      rw [explore, explore]
      refine .bind_checkpoint ?_
      refine (h.goAlike_next hsteers hstates).bind ?_
      rintro _ next? ⟨rfl, -⟩
      cases next? with
      | none => exact .pure (.some hstates)
      | some root => exact .throw _
  | succ limit ih =>
      rw [explore, explore]
      refine .bind_checkpoint ?_
      refine (h.goAlike_next hsteers hstates).bind ?_
      rintro _ next? ⟨rfl, hnext⟩
      cases next? with
      | none => exact .pure (.some hstates)
      | some root =>
          have hvisible := hnext root rfl
          have hconflict := hsteers.conflict s t hstates.agrees root
          refine (h.goAlike_open? hsteers hstates hvisible).bind fun x y hxy => ?_
          cases hxy with
          | error hopen => exact .bind_modify hopen (.pure .none)
          | @ok _ candidates heq =>
              subst heq
              refine (h.goAlike_attempt hsteers (fun _ _ hmatch => ih hmatch) hstates hvisible
                candidates).bind fun solved? solved?' hsolved => ?_
              cases hsolved with
              | none => exact .bind_modify (hconflict _) (.pure .none)
              | some hmatch => exact .pure (.some hmatch)

/-! ### Searching -/

/-- Solutions of states that agree, found after tries that are recorded alike. -/
def SolutionsMatch (p q : Parameters) (silent : Set ProjectRoot)
    (records : SearchRecord → SearchRecord → Prop) (a b : Solution) : Prop :=
  ∃ (s t : SearchState) (r r' : SearchRecord), s.AgreesOff silent t ∧ records r r' ∧
    a = s.toSolution p r.attempts ∧ b = t.toSolution q r'.attempts

theorem AnswersAlike.goAlike_search (h : AnswersAlike source source' p silent)
    (hsteers : SteersAlike p q silent records) (limit : Nat)
    (hdemands : GoAlike source source' records
      (fun a b => b = a ∧ ∀ d ∈ a, IsVisible source p d.target) (rootDemands p) (rootDemands q)) :
    GoAlike source source' records (SolutionsMatch p q silent records) (search p limit)
      (search q limit) := by
  rw [search, search]
  refine hdemands.bind ?_
  rintro _ work ⟨rfl, hwork⟩
  have hempty : StatesMatch source p silent .empty .empty :=
    ⟨.empty silent, fun _ hroot => nomatch hroot⟩
  refine (h.goAlike_meetAll hsteers hempty hwork).bind fun x y hxy => ?_
  cases hxy with
  | error hconflict =>
      exact .bind_modify hconflict fun _ _ hrecords => .error (.unsatisfiable hrecords)
  | ok hstart =>
      refine (h.goAlike_explore hsteers limit hstart).bind fun solved? solved?' hsolved => ?_
      cases hsolved with
      | none => exact .bind_checkpoint fun _ _ hrecords => .error (.unsatisfiable hrecords)
      | some hmatch =>
          exact fun r r' hrecords =>
            .ok ⟨⟨_, _, r, r', hmatch.agrees, hrecords, rfl, rfl⟩, hrecords⟩

theorem AnswersAlike.resultsMatch_run_solve (h : AnswersAlike source source' p silent)
    (hsteers : SteersAlike p q silent records) (limit : Nat)
    (hdemands : GoAlike source source' records
      (fun a b => b = a ∧ ∀ d ∈ a, IsVisible source p d.target) (rootDemands p) (rootDemands q))
    (hstart : records .empty .empty) :
    ResultsMatch (ErrorsMatch records) (SolutionsMatch p q silent records)
      ((solve p limit).run source) ((solve q limit).run source') := by
  have hsearch := h.goAlike_search hsteers limit hdemands .empty .empty hstart
  rw [run_solve, run_solve]
  generalize outcome source (search p limit) .empty = o at hsearch ⊢
  generalize outcome source' (search q limit) .empty = o' at hsearch ⊢
  cases hsearch with
  | error herrors => exact .error herrors
  | ok hvalues => exact .ok hvalues.1

end DepSolver.Search
