import DepSolver.Proofs.Disk.FileTree
import DepSolver.Proofs.Disk.Path

/-!
Ways through a tree of files, from directory to directory. A walk that ends in a directory follows
such a way. Ways can be put together and taken apart, they lead to the same place when the tree
grows, and segments that do not lead on do not matter to them.
-/

namespace DepSolver

namespace FileTree

open FilePath (isVoid IsOrdinary)

variable {t t' : FileTree} {use : PathUse} {links links' more : Nat}
  {current place place' start segments segments' rest names : List String} {s : String}
  {n : FileNode} {found : Place}

/-! ### Steps of a walk -/

theorem walk_void_cons (h : t.hasDirectory current = true) (hs : isVoid s = true) :
    t.walk use links current (s :: rest) = t.walk use links current rest := by
  rw [walk, if_neg (by simp [h]), if_pos (by simpa [isVoid] using hs)]

theorem walk_up_cons (h : t.hasDirectory current = true) :
    t.walk use links current (".." :: rest) = t.walk use links current.dropLast rest := by
  rw [walk, if_neg (by simp [h]), if_neg (by decide), if_pos rfl]

theorem walk_name (h : t.hasDirectory current = true) (hs : IsOrdinary s) (huse : use ≠ .file) :
    t.walk use links current (s :: rest) =
      if nameLimit < s.utf8ByteSize then .error .nameTooLong
      else match t.node? (current ++ [s]) with
        | none => if rest.isEmpty then .ok (.free current s) else .error .notFound
        | some (.link target) =>
            if rest.isEmpty && use = .entry then .ok (.taken (current ++ [s]))
            else match links with
              | 0 => .error .tooManyLinks
              | links + 1 =>
                  t.walk use links (if target.isAbsolute then [] else current)
                    (segmentsThrough target ++ rest)
        | some _ => t.walk use links (current ++ [s]) rest := by
  simp only [IsOrdinary, List.mem_cons, List.not_mem_nil, or_false, not_or] at hs
  rw [walk, if_neg (by simp [h]), if_neg (by simp [hs]), if_neg hs.2.2]
  exact if_neg (by simp [huse])

theorem not_isVoid (h : IsOrdinary s) : isVoid s = false := by
  simp only [IsOrdinary, List.mem_cons, List.not_mem_nil, or_false, not_or] at h
  simp [isVoid, h]

/-! ### Ways between directories -/

/-- Segments lead from a directory to another one, through a number of links. -/
inductive Follows (t : FileTree) : Nat → List String → List String → List String → Prop
  | here {place : List String} : t.hasDirectory place = true → t.Follows 0 place [] place
  | void {links : Nat} {current rest place : List String} {s : String} :
      t.hasDirectory current = true → isVoid s = true → t.Follows links current rest place →
      t.Follows links current (s :: rest) place
  | up {links : Nat} {current rest place : List String} : t.hasDirectory current = true →
      t.Follows links current.dropLast rest place → t.Follows links current (".." :: rest) place
  | down {links : Nat} {current rest place : List String} {s : String} :
      t.hasDirectory current = true → IsName s → t.Follows links (current ++ [s]) rest place →
      t.Follows links current (s :: rest) place
  | link {links : Nat} {current rest place : List String} {s : String} {target : FilePath} :
      t.hasDirectory current = true → IsName s →
      t.node? (current ++ [s]) = some (.link target) →
      t.Follows links (if target.isAbsolute then [] else current) (segmentsThrough target ++ rest)
        place →
      t.Follows (links + 1) current (s :: rest) place

theorem Follows.hasDirectory_left (h : t.Follows links current segments place) :
    t.hasDirectory current = true := by
  cases h <;> assumption

theorem Follows.hasDirectory_right (h : t.Follows links current segments place) :
    t.hasDirectory place = true := by
  induction h with
  | here h => exact h
  | void _ _ _ ih | up _ _ ih | down _ _ _ ih | link _ _ _ _ ih => exact ih

/-- A walk along a way and on goes on from where the way leads, with the links that are left. -/
theorem Follows.walk_append (h : t.Follows links current segments place) (more : Nat)
    (hrest : use = .target ∨ use = .entry ∧ rest ≠ []) :
    t.walk use (links + more) current (segments ++ rest) = t.walk use more place rest := by
  have huse : use ≠ .file := by
    rintro rfl
    rcases hrest with h | ⟨h, -⟩ <;> cases h
  induction h with
  | here h => rw [List.nil_append, Nat.zero_add]
  | void h hs _ ih => rw [List.cons_append, walk_void_cons h hs, ih]
  | up h _ ih => rw [List.cons_append, walk_up_cons h, ih]
  | down h hs hrest' ih =>
      rw [List.cons_append, walk_name h hs.1 huse, if_neg (Nat.not_lt.mpr hs.2),
        hasDirectory_iff.mp hrest'.hasDirectory_left]
      exact ih
  | @link links current segments place s target h hs hnode _ ih =>
      have hfollowed : ((segments ++ rest).isEmpty && decide (use = .entry)) = false := by
        rcases hrest with rfl | ⟨-, hrest⟩ <;> simp_all
      rw [List.cons_append, walk_name h hs.1 huse, if_neg (Nat.not_lt.mpr hs.2), hnode]
      simp only [hfollowed]
      rw [Nat.add_right_comm, ← ih, List.append_assoc]
      rfl

theorem Follows.walk_target (h : t.Follows links current segments place) (more : Nat) :
    t.walk .target (links + more) current segments = .ok (.taken place) := by
  rw [← List.append_nil segments, h.walk_append more (.inl rfl), walk_nil]

theorem exists_follows_of_walk (h : t.walk .target links current segments = .ok (.taken place))
    (hplace : t.hasDirectory place = true) :
    ∃ links' ≤ links, t.Follows links' current segments place := by
  have hname : ∀ {s : String}, ¬(s.isEmpty || decide (s = ".")) = true → ¬s = ".." →
      ¬nameLimit < s.utf8ByteSize → IsName s := by
    intro s hvoid hup hsize
    simp only [Bool.or_eq_true, String.isEmpty_iff, decide_eq_true_eq, not_or] at hvoid
    exact ⟨by simp [hvoid, hup], Nat.not_lt.mp hsize⟩
  generalize huse : PathUse.target = use at h
  fun_induction walk t use links current segments with
  | case1 =>
      cases h
      exact ⟨0, Nat.zero_le _, .here hplace⟩
  | case3 links current s rest hcurrent hs ih =>
      obtain ⟨links', hle, hrest⟩ := ih h
      exact ⟨links', hle, .void (by simpa using hcurrent) (by simpa [isVoid] using hs) hrest⟩
  | case4 links current rest hcurrent _ ih =>
      obtain ⟨links', hle, hrest⟩ := ih h
      exact ⟨links', hle, .up (by simpa using hcurrent) hrest⟩
  | case9 links current s rest _ _ _ _ _ _ target _ hentry =>
      subst huse
      simp at hentry
  | case11 current s rest hcurrent hvoid hup _ hsize _ target hnode _ links ih =>
      obtain ⟨links', hle, hrest⟩ := ih h
      exact ⟨links' + 1, Nat.succ_le_succ hle,
        .link (by simpa using hcurrent) (hname hvoid hup hsize) hnode hrest⟩
  | case12 links current s rest hcurrent hvoid hup _ hsize _ n _ hnode ih =>
      obtain ⟨links', hle, hrest⟩ := ih h
      exact ⟨links', hle, .down (by simpa using hcurrent) (hname hvoid hup hsize) hrest⟩
  | _ => cases h

/-! ### Segments that lead on -/

private theorem follows_of_filter_eq_nil (h : t.hasDirectory current = true)
    (hsegments : segments.filter (!isVoid ·) = []) : t.Follows 0 current segments current := by
  induction segments with
  | nil => exact .here h
  | cons s rest ih =>
      by_cases hs : isVoid s = true
      · exact .void h hs (ih (by simpa [hs] using hsegments))
      · simp [hs] at hsegments

private theorem follows_of_filter_eq_cons (h : t.hasDirectory current = true)
    (hsegments : segments.filter (!isVoid ·) = s :: rest)
    (hrest : ∀ rest', rest'.filter (!isVoid ·) = rest →
      t.Follows links current (s :: rest') place) :
    t.Follows links current segments place := by
  induction segments with
  | nil => simp at hsegments
  | cons s' segments ih =>
      by_cases hs : isVoid s' = true
      · exact .void h hs (ih (by simpa [hs] using hsegments))
      · obtain ⟨rfl, hrest'⟩ : s' = s ∧ segments.filter (!isVoid ·) = rest := by
          simpa [hs] using hsegments
        exact hrest segments hrest'

theorem Follows.congr (h : t.Follows links current segments place)
    (hsegments : segments'.filter (!isVoid ·) = segments.filter (!isVoid ·)) :
    t.Follows links current segments' place := by
  induction h generalizing segments' with
  | here h => exact follows_of_filter_eq_nil h (by simpa using hsegments)
  | void _ hs _ ih => exact ih (by simpa [hs] using hsegments)
  | up h _ ih =>
      exact follows_of_filter_eq_cons h (by simpa [isVoid] using hsegments)
        fun rest' hrest' => .up h (ih hrest')
  | down h hs _ ih =>
      exact follows_of_filter_eq_cons h (by simpa [not_isVoid hs.1] using hsegments)
        fun rest' hrest' => .down h hs (ih hrest')
  | link h hs hnode _ ih =>
      refine follows_of_filter_eq_cons h (by simpa [not_isVoid hs.1] using hsegments)
        fun rest' hrest' => .link h hs hnode (ih ?_)
      rw [List.filter_append, List.filter_append, hrest']

/-! ### Ways put together and taken apart -/

theorem Follows.append (h : t.Follows links current segments place)
    (h' : t.Follows links' place rest place') :
    t.Follows (links + links') current (segments ++ rest) place' := by
  induction h with
  | here => rwa [Nat.zero_add]
  | void h hs _ ih => exact .void h hs (ih h')
  | up h _ ih => exact .up h (ih h')
  | down h hs _ ih => exact .down h hs (ih h')
  | link h hs hnode _ ih =>
      rw [Nat.add_right_comm, List.cons_append]
      refine .link h hs hnode ?_
      rw [← List.append_assoc]
      exact ih h'

theorem Follows.exists_of_append (h : t.Follows links current (segments ++ rest) place) :
    ∃ links' more between, links = links' + more ∧ t.Follows links' current segments between ∧
      t.Follows more between rest place := by
  generalize hwhole : segments ++ rest = whole at h
  induction h generalizing segments with
  | @here place h =>
      obtain ⟨rfl, rfl⟩ := List.append_eq_nil_iff.mp hwhole
      exact ⟨0, 0, place, rfl, .here h, .here h⟩
  | @void links current whole place s h hs hrest ih =>
      rcases List.append_eq_cons_iff.mp hwhole with ⟨rfl, rfl⟩ | ⟨segments, rfl, rfl⟩
      · exact ⟨0, links, current, (Nat.zero_add _).symm, .here h, .void h hs hrest⟩
      · obtain ⟨links', more, between, rfl, hfirst, hsecond⟩ := ih rfl
        exact ⟨links', more, between, rfl, .void h hs hfirst, hsecond⟩
  | @up links current whole place h hrest ih =>
      rcases List.append_eq_cons_iff.mp hwhole with ⟨rfl, rfl⟩ | ⟨segments, rfl, rfl⟩
      · exact ⟨0, links, current, (Nat.zero_add _).symm, .here h, .up h hrest⟩
      · obtain ⟨links', more, between, rfl, hfirst, hsecond⟩ := ih rfl
        exact ⟨links', more, between, rfl, .up h hfirst, hsecond⟩
  | @down links current whole place s h hs hrest ih =>
      rcases List.append_eq_cons_iff.mp hwhole with ⟨rfl, rfl⟩ | ⟨segments, rfl, rfl⟩
      · exact ⟨0, links, current, (Nat.zero_add _).symm, .here h, .down h hs hrest⟩
      · obtain ⟨links', more, between, rfl, hfirst, hsecond⟩ := ih rfl
        exact ⟨links', more, between, rfl, .down h hs hfirst, hsecond⟩
  | @link links current whole place s target h hs hnode hrest ih =>
      rcases List.append_eq_cons_iff.mp hwhole with ⟨rfl, rfl⟩ | ⟨segments, rfl, rfl⟩
      · exact ⟨0, links + 1, current, (Nat.zero_add _).symm, .here h, .link h hs hnode hrest⟩
      · obtain ⟨links', more, between, rfl, hfirst, hsecond⟩ := ih (List.append_assoc _ _ _)
        exact ⟨links' + 1, more, between, by omega, .link h hs hnode hfirst, hsecond⟩

theorem Follows.unique (h : t.Follows links current segments place)
    (h' : t.Follows links' current segments place') : place = place' := by
  have hwalk := h.walk_target links'
  rw [Nat.add_comm, h'.walk_target links] at hwalk
  cases hwalk
  rfl

theorem Follows.of_isWithin (h : t.Follows links current segments place) (hwithin : t.IsWithin t') :
    t'.Follows links current segments place := by
  induction h with
  | here h => exact .here (hwithin.hasDirectory h)
  | void h hs _ ih => exact .void (hwithin.hasDirectory h) hs ih
  | up h _ ih => exact .up (hwithin.hasDirectory h) ih
  | down h hs _ ih => exact .down (hwithin.hasDirectory h) hs ih
  | link h hs hnode _ ih => exact .link (hwithin.hasDirectory h) hs (hwithin _ _ hnode) ih

/-! ### Straight ways -/

theorem prefix_append_cases {way : List String} (h : way <+: names ++ rest) :
    way <+: names ∨ ∃ below, way = names ++ below ∧ below <+: rest := by
  rcases List.prefix_or_prefix_of_prefix h (List.prefix_append names rest) with hway | ⟨below, rfl⟩
  · exact .inl hway
  · exact .inr ⟨below, rfl, (List.prefix_append_right_inj names).mp h⟩

/-- From a directory, names lead down through directories. -/
def Descends (t : FileTree) (start names : List String) : Prop :=
  ∀ way, way <+: names → t.hasDirectory (start ++ way) = true

theorem descends_cons_iff : t.Descends start (s :: names) ↔
    t.hasDirectory start = true ∧ t.Descends (start ++ [s]) names := by
  constructor
  · intro h
    refine ⟨by simpa using h [] List.nil_prefix, fun way hway => ?_⟩
    simpa using h (s :: way) (List.cons_prefix_cons.mpr ⟨rfl, hway⟩)
  · rintro ⟨hstart, h⟩ way hway
    rcases List.prefix_cons_iff.mp hway with rfl | ⟨below, rfl, hbelow⟩
    · simpa using hstart
    · simpa using h below hbelow

theorem descends_nil_iff : t.Descends start [] ↔ t.hasDirectory start = true := by
  constructor
  · intro h
    simpa using h [] List.nil_prefix
  · intro h way hway
    rwa [List.prefix_nil.mp hway, List.append_nil]

theorem Descends.append (h : t.Descends start names) (h' : t.Descends (start ++ names) rest) :
    t.Descends start (names ++ rest) := by
  intro way hway
  rcases prefix_append_cases hway with hway | ⟨below, rfl, hbelow⟩
  · exact h way hway
  · rw [← List.append_assoc]
    exact h' below hbelow

theorem Descends.of_isWithin (h : t.Descends start names) (hwithin : t.IsWithin t') :
    t'.Descends start names :=
  fun way hway => hwithin.hasDirectory (h way hway)

theorem Descends.hasDirectory_right (h : t.Descends start names) :
    t.hasDirectory (start ++ names) = true :=
  h names List.prefix_rfl

theorem Descends.follows (h : t.Descends start names) (hnames : ∀ s ∈ names, IsName s) :
    t.Follows 0 start names (start ++ names) := by
  induction names generalizing start with
  | nil => simpa using Follows.here (by simpa using h.hasDirectory_right)
  | cons s names ih =>
      obtain ⟨hstart, hrest⟩ := descends_cons_iff.mp h
      obtain ⟨hs, hnames⟩ := List.forall_mem_cons.mp hnames
      exact .down hstart hs (by simpa using ih hrest hnames)

theorem Descends.follows_up (h : t.Descends start names) :
    t.Follows 0 (start ++ names) (names.map fun _ => "..") start := by
  induction names using List.reverseRecOn with
  | nil => simpa using Follows.here (by simpa using h.hasDirectory_right)
  | append_singleton names s ih =>
      have hups : ((names ++ [s]).map fun _ => "..") = ".." :: names.map fun _ => ".." := by
        simp [List.map_const', ← List.replicate_succ, ← List.replicate_succ']
      rw [hups]
      refine .up h.hasDirectory_right ?_
      rw [← List.append_assoc, List.dropLast_concat]
      exact ih fun way hway => h way (hway.trans (List.prefix_append _ _))

theorem Descends.follows_of_append (h : t.Descends start names)
    (hnames : ∀ s ∈ names, IsOrdinary s)
    (hfollows : t.Follows links start (names ++ rest) place) :
    t.Follows links (start ++ names) rest place := by
  induction names generalizing start with
  | nil => simpa using hfollows
  | cons s names ih =>
      obtain ⟨-, hrest⟩ := descends_cons_iff.mp h
      obtain ⟨hs, hnames⟩ := List.forall_mem_cons.mp hnames
      rw [← List.singleton_append, ← List.append_assoc]
      cases hfollows with
      | void _ hvoid _ => rw [not_isVoid hs] at hvoid; cases hvoid
      | up _ _ => exact absurd hs (by decide)
      | down _ _ hfollows => exact ih hrest hnames hfollows
      | link _ _ hnode _ =>
          have hdirectory := hasDirectory_iff.mp (hrest [] List.nil_prefix)
          rw [List.append_nil, hnode] at hdirectory
          cases hdirectory

/-! ### Entries below a directory -/

/-- No link stands at a directory or at a place to which names lead from it. -/
def IsFreeOfLinks (t : FileTree) (start names : List String) : Prop :=
  ∀ way, way <+: names → ∀ target, t.node? (start ++ way) ≠ some (.link target)

theorem IsFreeOfLinks.tail (h : t.IsFreeOfLinks start (s :: names)) :
    t.IsFreeOfLinks (start ++ [s]) names := by
  intro way hway
  simpa using h (s :: way) (List.cons_prefix_cons.mpr ⟨rfl, hway⟩)

theorem hasDirectory_of_walk_eq_ok (h : t.walk use links current (s :: rest) = .ok found) :
    t.hasDirectory current = true := by
  by_contra hcurrent
  rw [walk_of_not_hasDirectory (by simpa using hcurrent)] at h
  cases h

theorem walk_entry_name (h : t.walk .entry links current (s :: rest) = .ok found)
    (hs : IsOrdinary s)
    (hlink : rest ≠ [] → ∀ target, t.node? (current ++ [s]) ≠ some (.link target)) :
    IsName s ∧
      ((rest = [] ∧ t.node? (current ++ [s]) = none ∧ found = .free current s) ∨
        (rest = [] ∧ t.node? (current ++ [s]) ≠ none ∧ found = .taken (current ++ [s])) ∨
        (rest ≠ [] ∧ t.walk .entry links (current ++ [s]) rest = .ok found)) := by
  rw [walk_name (hasDirectory_of_walk_eq_ok h) hs (by decide)] at h
  split at h
  · cases h
  rename_i hsize
  refine ⟨⟨hs, Nat.not_lt.mp hsize⟩, ?_⟩
  by_cases hrest : rest = []
  · subst hrest
    cases hnode : t.node? (current ++ [s]) with
    | none =>
        rw [hnode] at h
        cases h
        exact .inl ⟨rfl, rfl, rfl⟩
    | some n =>
        rw [hnode] at h
        refine .inr (.inl ⟨rfl, by simp, ?_⟩)
        cases n with
        | link target =>
            cases h
            rfl
        | directory | file _ =>
            simp only [walk_nil, Except.ok.injEq] at h
            exact h.symm
  · refine .inr (.inr ⟨hrest, ?_⟩)
    cases hnode : t.node? (current ++ [s]) with
    | none =>
        rw [hnode] at h
        simp [hrest] at h
    | some n =>
        rw [hnode] at h
        cases n with
        | link target => exact absurd hnode (hlink hrest target)
        | directory | file _ => exact h

/-- A walk to an entry below a directory passes directories of these names, if it meets no link. -/
theorem walk_entry_below (h : t.walk .entry links start (names ++ [s]) = .ok found)
    (hfree : t.IsFreeOfLinks start names) (hnames : ∀ s' ∈ names ++ [s], IsOrdinary s') :
    t.Descends start names ∧ (∀ s' ∈ names ++ [s], IsName s') ∧
      ((t.node? (start ++ names ++ [s]) = none ∧ found = .free (start ++ names) s) ∨
        (t.node? (start ++ names ++ [s]) ≠ none ∧ found = .taken (start ++ names ++ [s]))) := by
  induction names generalizing start with
  | nil =>
      obtain ⟨hname, hfound⟩ := walk_entry_name h (hnames s (by simp)) (fun hne => absurd rfl hne)
      refine ⟨?_, by simpa using hname, ?_⟩
      · intro way hway
        rw [List.prefix_nil.mp hway, List.append_nil]
        exact hasDirectory_of_walk_eq_ok h
      · simpa using hfound
  | cons s' names ih =>
      obtain ⟨hname, hfound⟩ := walk_entry_name h (hnames s' (by simp))
        fun _ => by simpa using hfree [s'] (by simp)
      rcases hfound with ⟨hnil, -⟩ | ⟨hnil, -⟩ | ⟨-, hrest⟩
      · simp at hnil
      · simp at hnil
      obtain ⟨hdescends, hnames', hfound⟩ := ih hrest hfree.tail
        (fun s'' hs'' => hnames s'' (List.mem_cons_of_mem _ hs''))
      refine ⟨descends_cons_iff.mpr ⟨hasDirectory_of_walk_eq_ok h, hdescends⟩, ?_, ?_⟩
      · exact List.forall_mem_cons.mpr ⟨hname, hnames'⟩
      · simpa using hfound

theorem Follows.walk_entry_ne_free (h : t.Follows links current segments place)
    {directory : List String} :
    t.walk .entry more current segments ≠ .ok (.free directory s) := by
  induction h generalizing more with
  | here => simp [walk_nil]
  | void h hs _ ih =>
      rw [walk_void_cons h hs]
      exact ih
  | up h _ ih =>
      rw [walk_up_cons h]
      exact ih
  | down h hs hrest ih =>
      rw [walk_name h hs.1 (by decide), if_neg (Nat.not_lt.mpr hs.2),
        hasDirectory_iff.mp hrest.hasDirectory_left]
      exact ih
  | link h hs hnode _ ih =>
      rw [walk_name h hs.1 (by decide), if_neg (Nat.not_lt.mpr hs.2), hnode]
      dsimp only
      split
      · simp
      cases more with
      | zero => simp
      | succ more => exact ih

private theorem eq_of_walk_entry_eq_free {directory : List String}
    (h : t.walk .entry links start segments = .ok (.free directory s))
    (hsegments : segments.filter (!isVoid ·) = names) (hfree : t.IsFreeOfLinks start names)
    (hnames : ∀ s' ∈ names, IsOrdinary s') : directory ++ [s] = start ++ names := by
  induction segments generalizing start names with
  | nil => simp [walk_nil] at h
  | cons s' segments ih =>
      by_cases hs : isVoid s' = true
      · rw [walk_void_cons (hasDirectory_of_walk_eq_ok h) hs] at h
        exact ih h (by simpa [hs] using hsegments) hfree hnames
      obtain ⟨names, rfl, hrest⟩ : ∃ names', names = s' :: names' ∧
          segments.filter (!isVoid ·) = names' := ⟨_, by simpa [hs] using hsegments.symm, rfl⟩
      obtain ⟨-, hfound⟩ := walk_entry_name h (hnames s' List.mem_cons_self)
        fun _ => by simpa using hfree [s'] (by simp)
      rcases hfound with ⟨rfl, -, hfound⟩ | ⟨-, -, hfound⟩ | ⟨-, h⟩
      · cases hfound
        simp [← hrest]
      · cases hfound
      · simpa using ih h hrest hfree.tail fun s'' hs'' => hnames s'' (List.mem_cons_of_mem _ hs'')

/-! ### Paths -/

variable {p base other : FilePath} {found : List String}

/-- A path leads to a directory, through a number of links at most, of which the disk allows as
many. -/
structure LeadsWithin (t : FileTree) (links : Nat) (p : FilePath) (place : List String) : Prop where
  isPath : pathError? p = none
  allowed : links ≤ linkLimit
  walk : t.walk .target links [] (segmentsThrough p) = .ok (.taken place)
  hasDirectory : t.hasDirectory place = true

theorem filter_segmentsThrough (p : FilePath) :
    (segmentsThrough p).filter (!isVoid ·) = p.steps := by
  rw [segmentsThrough, List.filter_append, FilePath.filter_segmentsOf]
  split <;> simp [isVoid]

theorem filter_steps (p : FilePath) : p.steps.filter (!isVoid ·) = p.steps := by
  rw [← FilePath.filter_segmentsOf, List.filter_filter]
  simp

theorem LeadsWithin.exists_follows (h : t.LeadsWithin links p place) :
    ∃ links' ≤ links, t.Follows links' [] p.steps place := by
  obtain ⟨links', hle, hfollows⟩ := exists_follows_of_walk h.walk h.hasDirectory
  exact ⟨links', hle, hfollows.congr (by rw [filter_segmentsThrough, filter_steps])⟩

theorem LeadsWithin.text_ne (h : t.LeadsWithin links p place) : p.text ≠ "" := by
  intro htext
  obtain rfl : p = ⟨""⟩ := congrArg FilePath.mk htext
  exact absurd h.isPath (by decide +kernel)

theorem lookup_of_follows (hp : pathError? p = none) (h : t.Follows links [] p.steps place)
    (hlinks : links ≤ linkLimit) : t.lookup p = .ok (place, .directory) := by
  obtain ⟨more, hmore⟩ := Nat.exists_eq_add_of_le hlinks
  have hsegments : t.Follows links [] (segmentsThrough p) place :=
    h.congr (by rw [filter_segmentsThrough, filter_steps])
  have hresolve : t.resolve .target p = .ok (.taken place) := by
    rw [resolve_eq_walk hp, hmore]
    exact hsegments.walk_target more
  rw [lookup, hresolve]
  simp [bind, Except.bind, hasDirectory_iff.mp h.hasDirectory_right]

theorem LeadsWithin.lookup (h : t.LeadsWithin links p place) :
    t.lookup p = .ok (place, .directory) := by
  obtain ⟨links', hle, hfollows⟩ := h.exists_follows
  exact lookup_of_follows h.isPath hfollows (hle.trans h.allowed)

theorem leadsWithin_of_descends (hp : pathError? p = none) (hsegments : segmentsThrough p = names)
    (hnames : ∀ s ∈ names, IsName s) (h : t.Descends [] names) : t.LeadsWithin 0 p names where
  isPath := hp
  allowed := Nat.zero_le _
  walk := by
    rw [hsegments]
    exact (h.follows hnames).walk_target 0
  hasDirectory := h.hasDirectory_right

theorem resolve_entry_of_follows (hp : pathError? p = none) (hlinks : links ≤ linkLimit)
    (hsegments : segmentsOf p = segments ++ [s]) (h : t.Follows links [] segments place)
    (hs : IsName s) (hnode : t.node? (place ++ [s]) = none) :
    t.resolve .entry p = .ok (.free place s) := by
  obtain ⟨more, hmore⟩ := Nat.exists_eq_add_of_le hlinks
  have hwalk : t.walk .entry linkLimit [] (segmentsOf p) = .ok (.free place s) := by
    rw [hsegments, hmore, h.walk_append more (.inr ⟨rfl, by simp⟩),
      walk_free h.hasDirectory_right hs hnode]
  rw [resolve_eq_walk hp]
  exact hwalk

theorem exists_of_resolve_eq_free {directory : List String}
    (hbase : t.Follows links [] base.steps start) (hlinks : links ≤ linkLimit)
    (hfree : t.IsFreeOfLinks start names) (hnames : ∀ s ∈ names, IsOrdinary s)
    (hp : p.steps <+: base.steps ++ names)
    (h : t.resolve .entry p = .ok (.free directory s)) :
    ∃ way, way <+: names ∧ directory ++ [s] = start ++ way := by
  have hwalk : t.walk .entry linkLimit [] (segmentsOf p) = .ok (.free directory s) := by
    rw [resolve] at h
    split at h
    · cases h
    · exact h
  rcases prefix_append_cases hp with ⟨more, hmore⟩ | ⟨way, hway, hbelow⟩
  · rw [← hmore] at hbase
    obtain ⟨_, _, _, -, hfollows, -⟩ := hbase.exists_of_append
    refine absurd hwalk (Follows.walk_entry_ne_free (hfollows.congr ?_))
    rw [FilePath.filter_segmentsOf, filter_steps]
  · have hsegments := FilePath.filter_segmentsOf p
    rw [hway] at hsegments
    obtain ⟨above, below, hp', habove, hbelow'⟩ := List.filter_eq_append_iff.mp hsegments
    have hfollows : t.Follows links [] above start :=
      hbase.congr (by rw [habove, filter_steps])
    rw [hp'] at hwalk
    by_cases hnil : below = []
    · rw [hnil, List.append_nil] at hwalk
      exact absurd hwalk hfollows.walk_entry_ne_free
    obtain ⟨more, hmore⟩ := Nat.exists_eq_add_of_le hlinks
    rw [hmore, hfollows.walk_append more (.inr ⟨rfl, hnil⟩)] at hwalk
    refine ⟨way, hbelow, eq_of_walk_entry_eq_free hwalk hbelow' ?_ ?_⟩
    · exact fun way' hway' => hfree way' (hway'.trans hbelow)
    · exact fun s' hs' => hnames s' (hbelow.subset hs')

/-- Two paths part at a directory from which the first one leads straight down to a place. What they
have in common may lead through links. -/
def PartsAt (t : FileTree) (base other : FilePath) (place : List String) : Prop :=
  ∃ shared names start, base.components = shared ++ names.map .name ∧ shared <+: other.components ∧
    t.walk .target linkLimit [] (shared.filterMap FilePath.Component.step?) = .ok (.taken start) ∧
    place = start ++ names ∧ t.Descends start names

theorem PartsAt.of_isWithin (h : t.PartsAt base other place) (hwithin : t.IsWithin t') :
    t'.PartsAt base other place := by
  obtain ⟨shared, names, start, hbase, hother, hwalk, hplace, hdescends⟩ := h
  have hstart : t.hasDirectory start = true := by simpa using hdescends [] List.nil_prefix
  obtain ⟨links, hle, hfollows⟩ := exists_follows_of_walk hwalk hstart
  obtain ⟨more, hmore⟩ := Nat.exists_eq_add_of_le hle
  refine ⟨shared, names, start, hbase, hother, ?_, hplace, hdescends.of_isWithin hwithin⟩
  rw [hmore]
  exact (hfollows.of_isWithin hwithin).walk_target more

end FileTree

end DepSolver
