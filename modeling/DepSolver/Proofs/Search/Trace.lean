import DepSolver.Proofs.Search.Moves
import DepSolver.Proofs.Search.Run

/-!
The trace of a failure is complete. A conflict that is recorded in a pass of the loop stays on the
record until the search reports it, and a search fails only after it has closed its first decision,
so the trace has why each candidate failed and the candidates of each decision that ran dry.
-/

namespace DepSolver

/-- The conflicts of a trace: some, each of them once, in order of their projects. -/
structure SolveFailure.IsOrderly (f : SolveFailure) : Prop where
  nonempty : f.conflicts ≠ []
  nodup : f.conflicts.Nodup
  sorted : f.conflicts.Pairwise fun a b => (compare a.root b.root).isLE

namespace Search

variable {replies : Replies} {p : Parameters} {s next : SearchState} {root : ProjectRoot}
  {version : Version} {untried tried : List Version} {stack : List Frame}
  {position position' last : Position} {r r' r'' : SearchRecord} {t : List Exchange}
  {c : ProjectConflict} {l : List Pass}

/-! ### Records along a course -/

theorem Moves.mem_toFailure (h : Moves replies p position r position' r')
    (hc : c ∈ r.toFailure.conflicts) : c ∈ r'.toFailure.conflicts := by
  cases h with
  | barred | closed | failed => exact SearchRecord.mem_toFailure_add.mpr (.inl hc)
  | done | opened | ended | advanced | rested => exact hc

theorem Moves.isKeyed (h : Moves replies p position r position' r') (hr : r.IsKeyed) :
    r'.IsKeyed := by
  cases h with
  | barred | closed => exact hr.add _
  | failed => exact (hr.count _).add _
  | advanced => exact hr.count _
  | done | opened | ended | rested => exact hr

/-- What each pass preserves holds at each pass of a course, and at its end. -/
theorem Course.invariant {P : Position → SearchRecord → Prop} (h : Course p position r l last r'')
    (hreplies : ∀ x ∈ transcript l, replies x.query x.answer)
    (hstep : ∀ {position r position' r'}, Moves replies p position r position' r' →
      P position r → P position' r') (hp : P position r) :
    P last r'' ∧ ∀ x ∈ l, P x.position x.record := by
  induction h with
  | nil => exact ⟨hp, by simp⟩
  | cons hpass _ ih =>
      obtain ⟨hfirst, hrest⟩ := List.forall_mem_append.mp hreplies
      obtain ⟨hlast, hpasses⟩ := ih hrest (hstep (moves_of_gives hpass hfirst) hp)
      exact ⟨hlast, List.forall_mem_cons.mpr ⟨hp, hpasses⟩⟩

theorem Course.mem_toFailure (h : Course p position r l last r'')
    (hc : c ∈ r.toFailure.conflicts) : c ∈ r''.toFailure.conflicts :=
  (h.invariant (P := fun _ r => c ∈ r.toFailure.conflicts) (Replies.any_answer _)
    Moves.mem_toFailure hc).1

theorem Course.exists_of_mem (h : Course p position r l last r'') {x : Pass} (hx : x ∈ l) :
    ∃ position' r' l', Gives (pass p x.position) x.record x.exchanges position' r' ∧
      Course p position' r' l' last r'' := by
  induction h with
  | nil => cases hx
  | cons hpass hrest ih =>
      rcases List.mem_cons.mp hx with rfl | hx
      · exact ⟨_, _, _, hpass, hrest⟩
      · exact ih hx

/-- The candidate that is tried in a pass. -/
def Pass.candidate? (x : Pass) : Option (ProjectRoot × Version) :=
  match x.position with
  | .back (⟨root, version :: _, _, _⟩ :: _) => some (root, version)
  | _ => none

theorem Course.attempts_eq (h : Course p position r l last r'') :
    r''.attempts = r.attempts + (l.filterMap Pass.candidate?).length := by
  induction h with
  | nil => rfl
  | cons hpass _ ih =>
      rw [ih]
      cases moves_of_gives hpass (Replies.any_answer _) with
      | failed | advanced =>
          change _ + 1 + _ = _ + (_ + 1)
          omega
      | done | barred | opened | ended | closed | rested => rfl

/-! ### Decisions along a course -/

/-- A decision has before and after it the candidates for its project, in order. -/
def Frame.IsListed (replies : Replies) (p : Parameters) (f : Frame) : Prop :=
  ∃ listed, replies (.versions f.project) (.ok listed) ∧
    f.tried ++ f.untried = f.before.candidates p f.project listed

theorem Moves.forall_isListed (h : Moves replies p position r position' r')
    (hstack : ∀ f ∈ position.stack, f.IsListed replies p) :
    ∀ f ∈ position'.stack, f.IsListed replies p := by
  cases h with
  | opened hpending hversions => exact List.forall_mem_cons.mpr ⟨⟨_, hversions, rfl⟩, hstack⟩
  | failed | advanced =>
      obtain ⟨⟨listed, hversions, hcandidates⟩, hrest⟩ := List.forall_mem_cons.mp hstack
      refine List.forall_mem_cons.mpr ⟨⟨listed, hversions, ?_⟩, hrest⟩
      rw [← hcandidates, List.append_assoc]
      rfl
  | closed => exact (List.forall_mem_cons.mp hstack).2
  | barred => exact hstack
  | done | ended | rested => simp [Position.stack]

/-- A search with no decision left has recorded a conflict. -/
def IsBlamed (position : Position) (r : SearchRecord) : Prop :=
  position = .back [] ∨ position = .finished none → r.toFailure.conflicts ≠ []

theorem Moves.isBlamed (h : Moves replies p position r position' r') (hr : IsBlamed position r) :
    IsBlamed position' r' := by
  cases h with
  | barred | closed | failed => exact fun _ => SearchRecord.toFailure_add_ne_nil _ _
  | ended => exact fun _ => hr (.inl rfl)
  | rested => exact hr
  | done | opened | advanced => simp [IsBlamed]

theorem Course.attempts_eq_of_over (h : Course p position r l last r'')
    (hover : position = .back [] ∨ ∃ o, position = .finished o) : r''.attempts = r.attempts := by
  refine (h.invariant (P := fun position r' =>
    (position = .back [] ∨ ∃ o, position = .finished o) ∧ r'.attempts = r.attempts)
    (Replies.any_answer _) ?_ ⟨hover, rfl⟩).1.2
  rintro _ _ _ _ hmoves ⟨hover, hattempts⟩
  cases hmoves <;> simp_all

/-! ### The first decision -/

section First

variable {before : SearchState} {candidates : List Version}

/-- A decision is at the bottom of a stack; those above it are about other projects and come after
it. -/
inductive RestsOn (root : ProjectRoot) (before : SearchState) (candidates : List Version) :
    List Frame → Prop
  | bottom {untried tried : List Version} (hcandidates : tried ++ untried = candidates) :
      RestsOn root before candidates [⟨root, untried, tried, before⟩]
  | above {f : Frame} {stack : List Frame} (hother : f.project ≠ root)
      (hselected : f.before.version? root ≠ none) (h : RestsOn root before candidates stack) :
      RestsOn root before candidates (f :: stack)

/-- Where a search stands after its first decision. It does not come to an end without a solution
before that decision has run dry. -/
inductive IsUnder (p : Parameters) (root : ProjectRoot) (before : SearchState)
    (candidates : List Version) : Position → SearchRecord → Prop
  | onward {s : SearchState} {stack : List Frame} {r : SearchRecord}
      (hselected : s.version? root ≠ none) (h : RestsOn root before candidates stack) :
      IsUnder p root before candidates (.onward s stack) r
  | back {stack : List Frame} {r : SearchRecord} (h : RestsOn root before candidates stack) :
      IsUnder p root before candidates (.back stack) r
  | dry {position : Position} {r : SearchRecord}
      (hover : position = .back [] ∨ position = .finished none)
      (hentry : before.conflict p root (.candidatesExhausted candidates) ∈ r.toFailure.conflicts) :
      IsUnder p root before candidates position r
  | solved {s : SearchState} {r : SearchRecord} :
      IsUnder p root before candidates (.finished (some s)) r

theorem RestsOn.take {root' : ProjectRoot}
    (h : RestsOn root before candidates (⟨root', version :: untried, tried, s⟩ :: stack)) :
    RestsOn root before candidates (⟨root', untried, tried ++ [version], s⟩ :: stack) := by
  cases h with
  | bottom hcandidates => exact .bottom (by rw [List.append_assoc]; exact hcandidates)
  | above hother hselected h => exact .above hother hselected h

theorem RestsOn.selected {root' : ProjectRoot}
    (h : RestsOn root before candidates (⟨root', untried, tried, s⟩ :: stack))
    (hversion : next.version? = Function.update s.version? root' (some version)) :
    next.version? root ≠ none := by
  rw [hversion, Function.update_apply]
  cases h with
  | bottom => simp
  | above hother hselected => rwa [if_neg (Ne.symm hother)]

theorem Moves.isUnder (h : Moves replies p position r position' r')
    (hunder : IsUnder p root before candidates position r) :
    IsUnder p root before candidates position' r' := by
  cases h with
  | done => exact .solved
  | barred =>
      cases hunder with
      | onward _ hrests => exact .back hrests
      | dry hover => simp at hover
  | @opened s stack _ root' _ hpending =>
      cases hunder with
      | onward hselected hrests =>
          refine .back (.above ?_ hselected hrests)
          rintro rfl
          rw [SearchState.version?, (SearchState.mem_pending_iff.mp hpending).2] at hselected
          exact hselected rfl
      | dry hover => simp at hover
  | ended =>
      cases hunder with
      | back hrests => cases hrests
      | dry _ hentry => exact .dry (.inr rfl) hentry
  | closed =>
      cases hunder with
      | back hrests =>
          cases hrests with
          | bottom hcandidates =>
              rw [List.append_nil] at hcandidates
              rw [hcandidates]
              exact .dry (.inl rfl) (SearchRecord.mem_toFailure_add.mpr (.inr rfl))
          | above _ _ hrests => exact .back hrests
      | dry hover => simp at hover
  | failed =>
      cases hunder with
      | back hrests => exact .back hrests.take
      | dry hover => simp at hover
  | advanced hversion =>
      cases hunder with
      | back hrests => exact .onward (hrests.selected hversion) hrests.take
      | dry hover => simp at hover
  | rested => exact hunder

/-- The only decision about a project that ran dry, as far as the record goes, is the given one. -/
def IsOnlyEntry (p : Parameters) (root : ProjectRoot) (before : SearchState)
    (candidates : List Version) (r : SearchRecord) : Prop :=
  ∀ c ∈ r.toFailure.conflicts, c.root = root → c.IsExhaustion →
    c = before.conflict p root (.candidatesExhausted candidates)

theorem Moves.isOnlyEntry (h : Moves replies p position r position' r')
    (hunder : IsUnder p root before candidates position r)
    (hr : IsOnlyEntry p root before candidates r) :
    IsOnlyEntry p root before candidates r' := by
  cases h with
  | done | opened | ended | advanced | rested => exact hr
  | barred hother | failed hother =>
      intro x hx hroot hexhaustion
      rcases SearchRecord.mem_toFailure_add.mp hx with hx | rfl
      · exact hr x hx hroot hexhaustion
      · exact absurd hexhaustion hother
  | closed =>
      intro x hx hroot hexhaustion
      rcases SearchRecord.mem_toFailure_add.mp hx with hx | rfl
      · exact hr x hx hroot hexhaustion
      · cases hunder with
        | back hrests =>
            cases hrests with
            | bottom hcandidates => rw [← hcandidates, List.append_nil]
            | above hother =>
                exact absurd hroot hother
        | dry hover => simp at hover

theorem Course.isOnlyEntry (h : Course p position r l (.finished none) r'')
    (hunder : IsUnder p root before candidates position r)
    (hr : IsOnlyEntry p root before candidates r) :
    before.conflict p root (.candidatesExhausted candidates) ∈ r''.toFailure.conflicts ∧
      IsOnlyEntry p root before candidates r'' := by
  have hlast := (h.invariant (P := fun position r =>
    IsUnder p root before candidates position r ∧ IsOnlyEntry p root before candidates r)
    (Replies.any_answer _) (fun hmoves hp => ⟨hmoves.isUnder hp.1, hmoves.isOnlyEntry hp.1 hp.2⟩)
    ⟨hunder, hr⟩).1
  refine ⟨?_, hlast.2⟩
  cases hlast.1 with
  | dry _ hentry => exact hentry

end First

theorem Gives.onward_or_failed (h : Gives (firstPosition p) r t position r') :
    (∃ s, position = .onward s [] ∧ r' = r) ∨
      ∃ c, position = .finished none ∧ r' = r.add c := by
  suffices hensures : Ensures .any (fun position r' =>
      (∃ s, position = .onward s [] ∧ r' = r) ∨ ∃ c, position = .finished none ∧ r' = r.add c)
      (fun _ => True) (firstPosition p) r from h.of_ensures hensures (Replies.any_answer t)
  rw [firstPosition, ensures_bind]
  refine ensures_rootDemands.imp ?_
  rintro work _ ⟨rfl, -⟩
  rw [ensures_bind]
  refine ensures_expand_version?.imp ?_
  rintro (c | s) _ ⟨rfl, -⟩
  · exact .inr ⟨c, rfl, rfl⟩
  · exact .inl ⟨s, rfl, rfl⟩

theorem Course.exists_cons (h : Course p position r l last r'') (hne : position ≠ last) :
    ∃ t rest, l = ⟨position, r, t⟩ :: rest := by
  cases h with
  | nil => exact absurd rfl hne
  | cons => exact ⟨_, _, rfl⟩

theorem Course.exists_opened (h : Course p (.onward s []) r l (.finished none) r'')
    (hreplies : ∀ x ∈ transcript l, replies x.query x.answer) (htried : r.attempts < r''.attempts) :
    ∃ root listed t rest, l = ⟨.onward s [], r, t⟩ :: rest ∧
      replies (.versions root) (.ok listed) ∧
      Course p (.back [⟨root, s.candidates p root listed, [], s⟩]) r rest (.finished none) r'' := by
  cases h with
  | cons hpass hrest =>
      have hover := hrest.attempts_eq_of_over
      have hfirst := (List.forall_mem_append.mp hreplies).1
      cases moves_of_gives hpass hfirst with
      | done => exact absurd (hover (.inr ⟨_, rfl⟩)) htried.ne'
      | barred => exact absurd (hover (.inl rfl)) htried.ne'
      | opened _ hversions => exact ⟨_, _, _, _, rfl, hversions, hrest⟩

/-! ### The trace -/

theorem isOrderly_of_course {first : List Exchange}
    (hfirst : Gives (firstPosition p) .empty first position r)
    (hcourse : Course p position r l (.finished none) r') : r'.toFailure.IsOrderly := by
  have hstart : r.IsKeyed ∧ IsBlamed position r := by
    rcases hfirst.onward_or_failed with ⟨s, rfl, rfl⟩ | ⟨c, rfl, rfl⟩
    · exact ⟨.empty, by simp [IsBlamed]⟩
    · exact ⟨.add .empty c, fun _ => SearchRecord.toFailure_add_ne_nil _ c⟩
  obtain ⟨hkeyed, hblamed⟩ := (hcourse.invariant
    (P := fun position r => r.IsKeyed ∧ IsBlamed position r) (Replies.any_answer _)
    (fun hmoves hp => ⟨hmoves.isKeyed hp.1, hmoves.isBlamed hp.2⟩) hstart).1
  exact ⟨hblamed (.inr rfl), hkeyed.nodup_toFailure, hkeyed.sorted_toFailure⟩

theorem Course.mem_of_failed (h : Course p position r l last r'') {x : Pass} (hx : x ∈ l)
    (hat : x.position = .back (⟨root, version :: untried, tried, s⟩ :: stack))
    (htry : Gives (trySelect p s root version) { x.record with attempts := x.record.attempts + 1 }
      x.exchanges (.error c) r') : c ∈ r''.toFailure.conflicts := by
  obtain ⟨position', r₁, l', hpass, hrest⟩ := h.exists_of_mem hx
  rw [hat] at hpass
  obtain ⟨rfl, rfl⟩ := hpass.unique (gives_pass_failed htry)
  exact hrest.mem_toFailure (SearchRecord.mem_toFailure_add.mpr (.inr rfl))

theorem Course.mem_of_dry (h : Course p position r l last r'') {x : Pass} (hx : x ∈ l)
    (hat : x.position = .back (⟨root, [], tried, s⟩ :: stack)) :
    s.conflict p root (.candidatesExhausted tried) ∈ r''.toFailure.conflicts := by
  obtain ⟨position', r₁, l', hpass, hrest⟩ := h.exists_of_mem hx
  rw [hat] at hpass
  obtain ⟨-, rfl, rfl⟩ := gives_pass_closed.mp hpass
  exact hrest.mem_toFailure (SearchRecord.mem_toFailure_add.mpr (.inr rfl))

/-- What the trace of a failure tells of the passes of a search: how many of them tried a candidate,
the conflict of each candidate that failed, and the candidates of each decision that ran dry. The
decision that was opened first is the only one about its project that did. -/
structure IsTraceOf (p : Parameters) (t : List Exchange) (l : List Pass) (f : SolveFailure) :
    Prop where
  attempts_eq : f.attempts = (l.filterMap Pass.candidate?).length
  failed : ∀ x ∈ l, ∀ root version untried tried s stack c r,
    x.position = .back (⟨root, version :: untried, tried, s⟩ :: stack) →
    Gives (trySelect p s root version) { x.record with attempts := x.record.attempts + 1 }
      x.exchanges (.error c) r → c ∈ f.conflicts
  dry : ∀ x ∈ l, ∀ root tried s stack, x.position = .back (⟨root, [], tried, s⟩ :: stack) →
    (∃ listed, ⟨.versions root, .ok listed⟩ ∈ t ∧ tried = s.candidates p root listed) ∧
      s.conflict p root (.candidatesExhausted tried) ∈ f.conflicts
  first : 0 < f.attempts → ∃ s root listed x y rest, l = x :: y :: rest ∧
    x.position = .onward s [] ∧ ⟨.versions root, .ok listed⟩ ∈ t ∧
    y.position = .back [⟨root, s.candidates p root listed, [], s⟩] ∧
    s.conflict p root (.candidatesExhausted (s.candidates p root listed)) ∈ f.conflicts ∧
    ∀ c ∈ f.conflicts, c.root = root → c.IsExhaustion →
      c = s.conflict p root (.candidatesExhausted (s.candidates p root listed))

private theorem isTraceOf_of_course {first : List Exchange}
    (hfirst : Gives (firstPosition p) .empty first position r)
    (hcourse : Course p position r l (.finished none) r')
    (hreplies : ∀ x ∈ transcript l, Replies.ofTranscript t x.query x.answer) :
    IsTraceOf p t l r'.toFailure where
  attempts_eq := by
    have heq := hcourse.attempts_eq
    rcases hfirst.onward_or_failed with ⟨s, -, rfl⟩ | ⟨c, -, rfl⟩
    · rwa [SearchRecord.empty, Nat.zero_add] at heq
    · rwa [SearchRecord.add, SearchRecord.empty, Nat.zero_add] at heq
  failed _ hx _ _ _ _ _ _ _ _ hat htry := hcourse.mem_of_failed hx hat htry
  dry := by
    have hstart : ∀ f ∈ position.stack, f.IsListed (.ofTranscript t) p := by
      rcases hfirst.onward_or_failed with ⟨s, rfl, -⟩ | ⟨c, rfl, -⟩ <;> simp [Position.stack]
    have hlisted := (hcourse.invariant (P := fun position _ => ∀ f ∈ position.stack, f.IsListed _ p)
      hreplies Moves.forall_isListed hstart).2
    intro x hx root tried s stack hat
    obtain ⟨listed, hversions, hcandidates⟩ := hlisted x hx _ (by rw [hat]; exact List.mem_cons_self)
    rw [List.append_nil] at hcandidates
    exact ⟨⟨listed, hversions, hcandidates⟩, hcourse.mem_of_dry hx hat⟩
  first := by
    intro htried
    rcases hfirst.onward_or_failed with ⟨s, rfl, rfl⟩ | ⟨c, rfl, rfl⟩
    · obtain ⟨root, listed, t', rest, rfl, hversions, hrest⟩ :=
        hcourse.exists_opened hreplies htried
      obtain ⟨hentry, honly⟩ := hrest.isOnlyEntry (.back (.bottom rfl)) fun c hc => by cases hc
      obtain ⟨t'', rest', rfl⟩ := hrest.exists_cons (by simp)
      exact ⟨s, root, listed, _, _, rest', rfl, rfl, hversions, rfl, hentry, honly⟩
    · exact absurd (hcourse.attempts_eq_of_over (.inr ⟨_, rfl⟩)) htried.ne'

/-- The trace of a failure is free of repeats, and complete as to the passes of the search. -/
theorem complete_trace_of_yields {limit : Nat} {f : SolveFailure}
    (h : (solve p limit).Yields t (.error (.unsatisfiable f))) :
    f.IsOrderly ∧ ∃ first position r l r', Dialogue.Spares recalls .empty (first ++ transcript l) t ∧
      Gives (firstPosition p) .empty first position r ∧
      Course p position r l (.finished none) r' ∧ IsTraceOf p t l f := by
  obtain ⟨first, position, r, l, r', hspares, hfirst, hcourse, rfl⟩ := exists_course_solve h
  have hreplies : ∀ x ∈ first ++ transcript l, x ∈ t :=
    hspares.forall_mem (fun _ hx => hx) fun _ _ hget => by cases hget
  exact ⟨isOrderly_of_course hfirst hcourse, first, position, r, l, r', hspares, hfirst, hcourse,
    isTraceOf_of_course hfirst hcourse (List.forall_mem_append.mp hreplies).2⟩

/-- The failure of the chain if the project that is solved wants another branch of `b.io`. -/
def chainFailure : SolveFailure where
  conflicts :=
    [⟨⟨"a.io"⟩, .candidatesExhausted [.branch "main" none], []⟩,
      ⟨⟨"b.io"⟩, .emptyIntersection,
        [⟨"root.io", .branch "next", none⟩, ⟨"a.io@main", .branch "main", none⟩]⟩]
  attempts := 1

theorem complete_trace_chainFailure :
    ∃ t, (solve (chainParameters ⟨"b.io"⟩ "next") 2).Yields t
        (.error (.unsatisfiable chainFailure)) ∧
      chainFailure.IsOrderly ∧
      ∃ first position r l r', Dialogue.Spares recalls .empty (first ++ transcript l) t ∧
        Gives (firstPosition (chainParameters ⟨"b.io"⟩ "next")) .empty first position r ∧
        Course (chainParameters ⟨"b.io"⟩ "next") position r l (.finished none) r' ∧
        IsTraceOf (chainParameters ⟨"b.io"⟩ "next") t l chainFailure := by
  obtain ⟨t, hyields, -⟩ :=
    (solve (chainParameters ⟨"b.io"⟩ "next") 2).exists_yields_run chainSource
  have hrun : (solve (chainParameters ⟨"b.io"⟩ "next") 2).run chainSource =
      .error (.unsatisfiable chainFailure) := by decide +kernel
  rw [hrun] at hyields
  exact ⟨t, hyields, complete_trace_of_yields hyields⟩

end Search

end DepSolver
