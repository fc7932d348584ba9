import DepSolver.Proofs.Dialogue
import DepSolver.Proofs.Search.Record
import DepSolver.Proofs.Search.State

/-!
The states and the conflicts that occur in a search, whatever answers it gets. A search starts from
the demands of the project that is solved, and goes on by meeting a demand or by selecting a
version; a solution is read off such a state, and every conflict in the trace of a failure arose in
one.
-/

namespace DepSolver.Search

variable {α β : Type} {replies : Replies} {p : Parameters} {s s' : SearchState} {d : Demand}
  {root : ProjectRoot} {version : Version} {imports : SortedSet String} {work more : List Demand}
  {r : SearchRecord} {c : ProjectConflict} {post : α → SearchRecord → Prop}
  {blames : SolveFailure → Prop} {importer : Option ProjectRoot}

/-- The demands of an importer for some imports, as the answers to them have it. An import of the
importer by itself leads to none. -/
structure IsWorkUnder (replies : Replies) (p : Parameters) (importer : Option ProjectRoot)
    (imports : List String) (work : List Demand) : Prop where
  importer_eq : ∀ d ∈ work, d.importer = importer
  nonempty : ∀ d ∈ work, ∃ path, path ∈ d.packages
  sound : ∀ d ∈ work, ∀ path ∈ d.packages, path ∈ imports ∧ p.hides path = false ∧
    importer ≠ some d.target ∧ replies (.root path) (.ok d.target)
  complete : ∀ path ∈ imports, p.hides path = false →
    (∃ root, importer = some root ∧ replies (.root path) (.ok root)) ∨
      ∃ d ∈ work, replies (.root path) (.ok d.target) ∧ path ∈ d.packages
  length_le : work.length ≤ imports.length

/-- The states that occur in a search, each with the demands that wait in it. -/
inductive Occurs (replies : Replies) (p : Parameters) : SearchState → List Demand → Prop
  | start {imports : SortedSet String} {work : List Demand}
      (himports : ∀ path, path ∈ imports ↔ p.RootImports path)
      (hwork : IsWorkUnder replies p none imports.toList work) : Occurs replies p .empty work
  | meet {s s' : SearchState} {d : Demand} {work more : List Demand} {imports : SortedSet String}
      (h : Occurs replies p s (d :: work)) (hmeet : s.meet p d = .ok (s', imports))
      (hmore : IsWorkUnder replies p (some d.target) imports.toList more) :
      Occurs replies p s' (work ++ more)
  | select {s s' : SearchState} {root : ProjectRoot} {version : Version} {listed : List Version}
      {tree : PackageTree} {manifest : Manifest} {imports : SortedSet String} {work : List Demand}
      (h : Occurs replies p s []) (hpending : root ∈ s.pending)
      (hversions : replies (.versions root) (.ok listed))
      (hcandidate : version ∈ s.candidates p root listed)
      (htree : replies (.tree root version) (.ok tree))
      (hmanifest : replies (.manifest root version) (.ok manifest))
      (hselect : s.select p root version tree manifest = .ok (s', imports))
      (hwork : IsWorkUnder replies p (some root) imports.toList work) : Occurs replies p s' work

/-- The conflicts that a search can run into in a state with waiting demands. -/
inductive ConflictsIn (replies : Replies) (p : Parameters) (s : SearchState) :
    List Demand → ProjectConflict → Prop
  | unmet {d : Demand} {work : List Demand} {c : ProjectConflict} (hmeet : s.meet p d = .error c) :
      ConflictsIn replies p s (d :: work) c
  | unselected {root : ProjectRoot} {version : Version} {tree : PackageTree} {manifest : Manifest}
      {c : ProjectConflict} (htree : replies (.tree root version) (.ok tree))
      (hselect : s.select p root version tree manifest = .error c) : ConflictsIn replies p s [] c
  | treeless {root owner : ProjectRoot} {version : Version}
      (htree : replies (.tree root version) (.error (.notFound owner))) :
      ConflictsIn replies p s [] (s.conflict p root (.versionRejected version))
  | manifestless {root owner : ProjectRoot} {version : Version}
      (hmanifest : replies (.manifest root version) (.error (.notFound owner))) :
      ConflictsIn replies p s [] (s.conflict p root (.versionRejected version))
  | contradictory {root : ProjectRoot} (hnothing : (s.constraintOn p root).isNothing = true) :
      ConflictsIn replies p s [] (s.conflict p root .emptyIntersection)
  | unlisted {root owner : ProjectRoot}
      (hversions : replies (.versions root) (.error (.notFound owner))) :
      ConflictsIn replies p s [] (s.conflict p root .projectNotFound)
  | unmatched {root : ProjectRoot} {listed : List Version}
      (hversions : replies (.versions root) (.ok listed))
      (hnone : s.candidates p root listed = []) :
      ConflictsIn replies p s [] (s.conflict p root (.noMatchingVersion listed))
  | exhausted {root : ProjectRoot} {listed : List Version}
      (hversions : replies (.versions root) (.ok listed)) :
      ConflictsIn replies p s []
        (s.conflict p root (.candidatesExhausted (s.candidates p root listed)))

/-- A conflict that a search ran into in a state that occurs. -/
def HasOccurred (replies : Replies) (p : Parameters) (c : ProjectConflict) : Prop :=
  ∃ s work, Occurs replies p s work ∧ ConflictsIn replies p s work c

/-- Every conflict in a record was run into. -/
def HasRecorded (replies : Replies) (p : Parameters) (r : SearchRecord) : Prop :=
  ∀ l ∈ r.conflicts.values, ∀ c ∈ l, HasOccurred replies p c

theorem hasRecorded_iff :
    HasRecorded replies p r ↔ ∀ c ∈ r.toFailure.conflicts, HasOccurred replies p c := by
  rw [SearchRecord.toFailure]
  exact List.forall_mem_flatten.symm

theorem hasRecorded_empty (replies : Replies) (p : Parameters) : HasRecorded replies p .empty := by
  intro l hl
  cases hl

theorem HasRecorded.add (h : HasRecorded replies p r) (hc : HasOccurred replies p c) :
    HasRecorded replies p (r.add c) := by
  rw [hasRecorded_iff] at h ⊢
  intro x hx
  rcases SearchRecord.mem_toFailure_add.mp hx with hx | rfl
  · exact h x hx
  · exact hc

/-! ### Steps -/

/-- What a step of a search ensures, whatever answers it gets: something of its value and of the
record after it, or of the failure that it reports. -/
def Ensures (replies : Replies) (post : α → SearchRecord → Prop) (blames : SolveFailure → Prop)
    (m : SearchM α) (r : SearchRecord) : Prop :=
  Dialogue.Ensures replies (fun
    | .ok (a, r') => post a r'
    | .error e => ∀ f, e = .unsatisfiable f → blames f) (m r)

@[simp] theorem ensures_pure {a : α} : Ensures replies post blames (pure a) r ↔ post a r := Iff.rfl

@[simp] theorem ensures_throw {e : SolveError} :
    Ensures replies post blames (throw e : SearchM α) r ↔ ∀ f, e = .unsatisfiable f → blames f :=
  Iff.rfl

theorem ensures_throw_of_ne {e : SolveError} (h : ∀ f, e ≠ .unsatisfiable f) :
    Ensures replies post blames (throw e : SearchM α) r :=
  ensures_throw.mpr fun f hf => absurd hf (h f)

theorem ensures_bind {m : SearchM α} {f : α → SearchM β} {post : β → SearchRecord → Prop} :
    Ensures replies post blames (m >>= f) r ↔
      Ensures replies (fun a r' => Ensures replies post blames (f a) r') blames m r := by
  rw [Ensures, Ensures]
  refine Iff.trans (Dialogue.ensures_bind (d := m r)) ?_
  apply Iff.of_eq
  congr 1
  funext o
  cases o <;> rfl

@[simp] theorem ensures_ask {q : Query} {post : q.Answer → SearchRecord → Prop} :
    Ensures replies post blames (ask q) r ↔ ∀ answer, replies q answer → post answer r := Iff.rfl

@[simp] theorem ensures_checkpoint {post : Unit → SearchRecord → Prop} :
    Ensures replies post blames checkpoint r ↔ post () r := Iff.rfl

@[simp] theorem ensures_note {post : Unit → SearchRecord → Prop} :
    Ensures replies post blames (note c) r ↔ post () (r.add c) := Iff.rfl

@[simp] theorem ensures_modify {f : SearchRecord → SearchRecord}
    {post : Unit → SearchRecord → Prop} :
    Ensures replies post blames (modify f) r ↔ post () (f r) := Iff.rfl

theorem Ensures.imp {m : SearchM α} {post' : α → SearchRecord → Prop}
    (h : Ensures replies post blames m r) (himp : ∀ a r', post a r' → post' a r') :
    Ensures replies post' blames m r := by
  refine Dialogue.Ensures.imp h ?_
  rintro (e | ⟨a, r'⟩) ho
  · exact ho
  · exact himp a r' ho

/-! ### Sorting imports by projects -/

theorem ensures_versions? : Ensures replies (fun o r' => r' = r ∧ match o with
      | some listed => replies (.versions root) (.ok listed)
      | none => ∃ owner, replies (.versions root) (.error (.notFound owner)))
    blames (versions? root) r := by
  rw [versions?, ensures_bind, ensures_ask]
  rintro (e | listed) hanswer
  · cases e with
    | notFound owner => exact ⟨rfl, owner, hanswer⟩
    | fetch owner message => exact ensures_throw_of_ne (by simp)
  · exact ⟨rfl, hanswer⟩

private theorem ensures_rootOf {path : String} :
    Ensures replies (fun (root : ProjectRoot) r' => r' = r ∧ replies (.root path) (.ok root)) blames
      (rootOf path) r := by
  rw [rootOf, ensures_bind, ensures_ask]
  rintro (e | root) hanswer
  · exact ensures_throw_of_ne (by simp)
  · exact ⟨rfl, hanswer⟩

/-- The imports of an importer in a table, added to those that were in another one. -/
structure IsGroupedUnder (replies : Replies) (p : Parameters) (importer : Option ProjectRoot)
    (imports : List String) (before after : Table ProjectRoot (SortedSet String)) : Prop where
  keeps : ∀ root path, before.Relates root path → after.Relates root path
  sound : ∀ root path, after.Relates root path → before.Relates root path ∨
    (path ∈ imports ∧ p.hides path = false ∧ importer ≠ some root ∧
      replies (.root path) (.ok root))
  complete : ∀ path ∈ imports, p.hides path = false →
    (∃ root, importer = some root ∧ replies (.root path) (.ok root)) ∨
      ∃ root, replies (.root path) (.ok root) ∧ after.Relates root path
  isProper : before.IsProper → after.IsProper
  size_le : after.size ≤ before.size + imports.length

section IsGroupedUnder

variable {rest : List String} {path : String} {before after : Table ProjectRoot (SortedSet String)}

theorem IsGroupedUnder.skip (h : IsGroupedUnder replies p importer rest before after)
    (hskip : p.hides path = false →
      ∃ root, importer = some root ∧ replies (.root path) (.ok root)) :
    IsGroupedUnder replies p importer (path :: rest) before after := by
  refine ⟨h.keeps, ?_, ?_, h.isProper, h.size_le.trans (by simp)⟩
  · intro root x hx
    exact (h.sound root x hx).imp_right fun hfound => ⟨List.mem_cons_of_mem _ hfound.1, hfound.2⟩
  · intro x hmem hhides
    rcases List.mem_cons.mp hmem with rfl | hmem
    · exact .inl (hskip hhides)
    · exact h.complete x hmem hhides

theorem IsGroupedUnder.take
    (h : IsGroupedUnder replies p importer rest (before.update root .empty (·.insert path)) after)
    (hhides : p.hides path = false) (hother : importer ≠ some root)
    (hroot : replies (.root path) (.ok root)) :
    IsGroupedUnder replies p importer (path :: rest) before after := by
  refine ⟨?_, ?_, ?_, fun hproper => h.isProper (hproper.update fun set => ⟨path, by simp⟩), ?_⟩
  · exact fun root' x hx => h.keeps root' x (Table.relates_update_insert.mpr (.inl hx))
  · intro root' x hx
    rcases h.sound root' x hx with hmid | hfound
    · refine (Table.relates_update_insert.mp hmid).imp_right ?_
      rintro ⟨rfl, rfl⟩
      exact ⟨List.mem_cons_self, hhides, hother, hroot⟩
    · exact .inr ⟨List.mem_cons_of_mem _ hfound.1, hfound.2⟩
  · intro x hmem hlook
    rcases List.mem_cons.mp hmem with rfl | hmem
    · exact .inr ⟨root, hroot, h.keeps root x (Table.relates_update_insert.mpr (.inr ⟨rfl, rfl⟩))⟩
    · exact h.complete x hmem hlook
  · have hsize := before.size_insert_le root (((before.get? root).getD .empty).insert path)
    have hle := h.size_le
    rw [Table.update] at hle
    rw [List.length_cons]
    omega

private theorem ensures_groupImports_go {imports : List String} :
    Ensures replies
      (fun after r' => r' = r ∧ IsGroupedUnder replies p importer imports before after) blames
      (groupImports.go p importer before imports) r := by
  induction imports generalizing before with
  | nil => exact ⟨rfl, fun _ _ h => h, fun _ _ h => .inl h, by simp, id, Nat.le_refl _⟩
  | cons path rest ih =>
      rw [groupImports.go]
      split
      · rename_i hhides
        refine ih.imp fun after r' hpost => ⟨hpost.1, hpost.2.skip ?_⟩
        simp [hhides]
      · rename_i hhides
        rw [ensures_bind]
        refine ensures_rootOf.imp ?_
        rintro root _ ⟨rfl, hroot⟩
        split
        · rename_i hown
          exact ih.imp fun after r' hpost => ⟨hpost.1, hpost.2.skip fun _ => ⟨root, hown, hroot⟩⟩
        · rename_i hother
          exact ih.imp fun after r' hpost =>
            ⟨hpost.1, hpost.2.take (Bool.eq_false_of_not_eq_true hhides) hother hroot⟩

end IsGroupedUnder

theorem ensures_demands :
    Ensures replies
      (fun work r' => r' = r ∧ IsWorkUnder replies p importer imports.toList work) blames
      (demands p importer imports) r := by
  rw [demands, groupImports, ensures_bind]
  refine ensures_groupImports_go.imp ?_
  rintro grouped _ ⟨rfl, hgroup⟩
  refine ⟨rfl, ?_, ?_, ?_, ?_, ?_⟩
  · intro d hd
    obtain ⟨x, -, rfl⟩ := List.mem_map.mp hd
    rfl
  · intro d hd
    obtain ⟨⟨target, packages⟩, hx, rfl⟩ := List.mem_map.mp hd
    exact hgroup.isProper Table.isProper_empty target packages (Table.get?_eq_some_iff.mpr hx)
  · intro d hd path hpath
    obtain ⟨⟨target, packages⟩, hx, rfl⟩ := List.mem_map.mp hd
    have hrelates : grouped.Relates target path :=
      ⟨packages, Table.get?_eq_some_iff.mpr hx, hpath⟩
    exact (hgroup.sound target path hrelates).resolve_left (Table.not_relates_empty target path)
  · intro path hpath hhides
    refine (hgroup.complete path hpath hhides).imp_right ?_
    rintro ⟨target, hroot, packages, hpackages, hmem⟩
    exact ⟨_, List.mem_map.mpr ⟨(target, packages), Table.get?_eq_some_iff.mp hpackages, rfl⟩,
      hroot, hmem⟩
  · have hsize := hgroup.size_le
    rw [List.length_map]
    simpa [Table.size, Table.empty] using hsize

theorem ensures_rootDemands :
    Ensures replies (fun work r' => r' = r ∧ Occurs replies p .empty work ∧
      ∀ path, p.rootTree.Reaches p.ignored true p.rootSeeds path → p.rootTree.IsUsable path)
      blames (rootDemands p) r := by
  rcases rootDemands_eq p with ⟨imports, heq, himports, husable⟩ | ⟨path, message, heq, -⟩
  · rw [heq]
    refine ensures_demands.imp ?_
    rintro work r' ⟨rfl, hwork⟩
    exact ⟨rfl, .start himports hwork, husable⟩
  · rw [heq]
    exact ensures_throw_of_ne (by simp)

/-! ### Meeting demands -/

theorem ensures_expand {fuel : Nat} (h : Occurs replies p s work) :
    Ensures replies (fun o r' => r' = r ∧ match o with
        | .ok s' => Occurs replies p s' []
        | .error c => HasOccurred replies p c)
      blames (expand p fuel s work) r := by
  induction fuel generalizing s work with
  | zero =>
      cases work with
      | nil => exact ⟨rfl, h⟩
      | cons d work => exact ensures_throw_of_ne (by simp)
  | succ fuel ih =>
      cases work with
      | nil => exact ⟨rfl, h⟩
      | cons d work =>
          rw [expand]
          split
          · rename_i c hmeet
            exact ⟨rfl, s, d :: work, h, .unmet hmeet⟩
          · rename_i s' imports hmeet
            rw [ensures_bind]
            refine ensures_demands.imp ?_
            rintro more _ ⟨rfl, hmore⟩
            exact ih (.meet h hmeet hmore)

/-! ### Deciding about a project -/

theorem ensures_nextAmong {best : Option ((Bool × Nat) × ProjectRoot)} {roots : List ProjectRoot} :
    Ensures replies (fun o r' => r' = r ∧ match o with
        | none => best = none ∧ roots = []
        | some root => root ∈ roots ∨ ∃ key, best = some (key, root))
      blames (nextAmong p best roots) r := by
  induction roots generalizing best with
  | nil =>
      refine ⟨rfl, ?_⟩
      cases best with
      | none => exact ⟨rfl, rfl⟩
      | some x => exact .inr ⟨x.1, rfl⟩
  | cons root rest ih =>
      rw [nextAmong, ensures_bind]
      refine ensures_versions?.imp ?_
      rintro listed _ ⟨rfl, -⟩
      refine ih.imp ?_
      rintro o r' ⟨rfl, ho⟩
      refine ⟨rfl, ?_⟩
      have hbetter : ∀ key x, better best key root = some x → x.2 = root ∨ best = some x := by
        intro key x hx
        rw [better.eq_def] at hx
        grind
      cases o with
      | none =>
          obtain ⟨hnone, -⟩ := ho
          rw [better.eq_def] at hnone
          grind
      | some root' =>
          rcases ho with hmem | ⟨key, hkey⟩
          · exact .inl (List.mem_cons_of_mem _ hmem)
          · rcases hbetter _ _ hkey with rfl | hbest
            · exact .inl List.mem_cons_self
            · exact .inr ⟨key, hbest⟩

theorem ensures_open? : Ensures replies (fun o r' => r' = r ∧ match o with
      | .ok candidates => ∃ listed, replies (.versions root) (.ok listed) ∧
          candidates = s.candidates p root listed
      | .error c => ConflictsIn replies p s [] c)
    blames (open? p s root) r := by
  rw [open?]
  split
  · rename_i hnothing
    exact ⟨rfl, .contradictory hnothing⟩
  · rw [ensures_bind]
    refine ensures_versions?.imp ?_
    rintro (_ | listed) _ ⟨rfl, hversions⟩
    · obtain ⟨owner, hversions⟩ := hversions
      exact ⟨rfl, .unlisted hversions⟩
    · dsimp only
      split
      · rename_i hnone
        exact ⟨rfl, .unmatched hversions hnone⟩
      · exact ⟨rfl, listed, hversions, rfl⟩

private theorem ensures_trySelect {listed : List Version} (h : Occurs replies p s [])
    (hpending : root ∈ s.pending) (hversions : replies (.versions root) (.ok listed))
    (hcandidate : version ∈ s.candidates p root listed) :
    Ensures replies (fun o r' => r' = r ∧ match o with
        | .ok next => Occurs replies p next []
        | .error c => HasOccurred replies p c)
      blames (trySelect p s root version) r := by
  rw [trySelect, ensures_bind, ensures_ask]
  rintro (e | tree) htree
  · cases e with
    | notFound owner => exact ⟨rfl, s, [], h, .treeless htree⟩
    | fetch owner message => exact ensures_throw_of_ne (by simp)
  · dsimp only
    rw [ensures_bind, ensures_ask]
    rintro (e | manifest) hmanifest
    · cases e with
      | notFound owner => exact ⟨rfl, s, [], h, .manifestless hmanifest⟩
      | fetch owner message => exact ensures_throw_of_ne (by simp)
    · dsimp only
      split
      · rename_i c hselect
        exact ⟨rfl, s, [], h, .unselected htree hselect⟩
      · rename_i next imports hselect
        rw [ensures_bind]
        refine ensures_demands.imp ?_
        rintro work _ ⟨rfl, hwork⟩
        exact ensures_expand
          (.select h hpending hversions hcandidate htree hmanifest hselect hwork)

/-! ### Exploring a state -/

/-- What a search has found after going on: perhaps a state in which nothing is pending, and a
record of conflicts that it ran into. -/
def HasFound (replies : Replies) (p : Parameters) (o : Option SearchState) (r : SearchRecord) :
    Prop :=
  HasRecorded replies p r ∧
    ∀ solved, o = some solved → Occurs replies p solved [] ∧ solved.pending = []

private theorem ensures_attempt {goOn : SearchState → SearchM (Option SearchState)} {listed :
    List Version}
    {candidates : List Version} (h : Occurs replies p s []) (hpending : root ∈ s.pending)
    (hversions : replies (.versions root) (.ok listed))
    (hsub : candidates ⊆ s.candidates p root listed)
    (hgo : ∀ next r, Occurs replies p next [] → HasRecorded replies p r →
      Ensures replies (HasFound replies p) blames (goOn next) r)
    (hr : HasRecorded replies p r) :
    Ensures replies (HasFound replies p) blames (attempt p goOn s root candidates) r := by
  induction candidates generalizing r with
  | nil => exact ⟨hr, by simp⟩
  | cons version rest ih =>
      obtain ⟨hcandidate, hrest⟩ := List.cons_subset.mp hsub
      rw [attempt]
      simp only [ensures_bind, ensures_checkpoint, ensures_modify]
      refine (ensures_trySelect h hpending hversions hcandidate).imp ?_
      rintro (c | next) _ ⟨rfl, htry⟩
      · exact ih hrest (HasRecorded.add hr htry)
      · dsimp only
        rw [ensures_bind]
        refine (hgo next { r with attempts := r.attempts + 1 } htry hr).imp ?_
        rintro (_ | solved) r' hfound
        · exact ih hrest hfound.1
        · exact hfound

theorem ensures_explore {limit : Nat} (h : Occurs replies p s []) (hr : HasRecorded replies p r) :
    Ensures replies (HasFound replies p) blames (explore p limit s) r := by
  induction limit using Nat.strongRecOn generalizing s r with
  | ind limit ih =>
      rw [explore.eq_def]
      simp only [ensures_bind, ensures_checkpoint]
      refine ensures_nextAmong.imp ?_
      rintro (_ | root) _ ⟨rfl, hnext⟩
      · refine ⟨hr, ?_⟩
        rintro solved ⟨⟩
        exact ⟨h, hnext.2⟩
      · have hpending : root ∈ s.pending := hnext.resolve_right (by simp)
        cases limit with
        | zero => exact ensures_throw_of_ne (by simp)
        | succ limit =>
            dsimp only
            rw [ensures_bind]
            refine ensures_open?.imp ?_
            rintro (c | candidates) _ ⟨rfl, hopen⟩
            · exact ⟨hr.add ⟨s, [], h, hopen⟩, by simp⟩
            · obtain ⟨listed, hversions, rfl⟩ := hopen
              dsimp only
              rw [ensures_bind]
              refine (ensures_attempt h hpending hversions (List.Subset.refl _)
                (fun next r hnext hr => ih limit (Nat.lt_succ_self limit) hnext hr) hr).imp ?_
              rintro (_ | solved) r' hfound
              · exact ⟨hfound.1.add ⟨s, [], h, .exhausted hversions⟩, by simp⟩
              · exact hfound

/-! ### The whole search -/

/-- What a search comes to: a solution that is read off a state in which nothing is pending, or a
failure in whose trace every conflict has occurred. -/
def IsResult (replies : Replies) (p : Parameters) : Except SolveError Solution → Prop
  | .ok solution =>
      (∀ path, p.rootTree.Reaches p.ignored true p.rootSeeds path → p.rootTree.IsUsable path) ∧
        ∃ s attempts, Occurs replies p s [] ∧ s.pending = [] ∧ solution = s.toSolution p attempts
  | .error e => ∀ f, e = .unsatisfiable f → ∀ c ∈ f.conflicts, HasOccurred replies p c

theorem ensures_search {limit : Nat} :
    Ensures replies (fun solution _ => IsResult replies p (.ok solution))
      (fun f => ∀ c ∈ f.conflicts, HasOccurred replies p c) (search p limit) .empty := by
  have hempty := hasRecorded_empty replies p
  have hfails : ∀ {r : SearchRecord}, HasRecorded replies p r →
      ∀ f, SolveError.unsatisfiable r.toFailure = .unsatisfiable f →
        ∀ c ∈ f.conflicts, HasOccurred replies p c := by
    rintro r hr _ ⟨⟩ c hc
    exact hasRecorded_iff.mp hr c hc
  rw [search, ensures_bind]
  refine ensures_rootDemands.imp ?_
  rintro work _ ⟨rfl, hoccurs, husable⟩
  rw [ensures_bind]
  refine (ensures_expand hoccurs).imp ?_
  rintro (c | s) _ ⟨rfl, hmet⟩
  · exact hfails (hempty.add hmet)
  · dsimp only
    rw [ensures_bind]
    refine (ensures_explore hmet hempty).imp ?_
    rintro (_ | solved) r' hfound
    · exact hfails hfound.1
    · obtain ⟨hsolved, hdone⟩ := hfound.2 solved rfl
      exact ⟨husable, solved, r'.attempts, hsolved, hdone, rfl⟩

theorem ensures_solve {limit : Nat} :
    (solve p limit).Ensures replies (IsResult replies p) := by
  rw [solve]
  refine Dialogue.Ensures.remembering ?_ fun _ _ hget => by cases hget
  refine (Dialogue.ensures_bind (d := search p limit .empty)).mpr ?_
  refine Dialogue.Ensures.imp ensures_search ?_
  rintro (e | ⟨solution, r⟩) ho
  · exact ho
  · exact ho

/-- Whatever answers a search gets, its result is due to them. -/
theorem isResult_of_yields {limit : Nat} {t : List Exchange} {result : Except SolveError Solution}
    (h : (solve p limit).Yields t result) : IsResult (.ofTranscript t) p result :=
  ensures_solve.of_yields h fun _ hx => hx

end DepSolver.Search
