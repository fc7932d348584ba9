import DepSolver.Disk.FileTree
import DepSolver.Proofs.Except
import DepSolver.Proofs.Table

/-!
Trees of files: what is kept from one tree to another, where paths lead, and how they are walked.
-/

namespace DepSolver

namespace FileTree

variable {t t' t'' : FileTree} {place place' : List String} {n : FileNode}
  {apart apart' : List (List String)} {use : PathUse} {p : FilePath} {links : Nat}
  {current segments rest : List String} {s : String}

/-! ### What is kept -/

theorem node?_insert_of_ne (h : place' ≠ place) :
    (t.insert place n).node? place' = t.node? place' := by
  rw [node?, node?, insert, Table.get?_insert, if_neg h]

theorem node?_insert_self (h : place ≠ []) : (t.insert place n).node? place = some n := by
  rw [node?, if_neg (by simpa using h), insert, Table.get?_insert, if_pos rfl]

/-- What stands in a tree stands in another one as well, apart from some places; and there nothing
else is new but directories. -/
def Keeps (t t' : FileTree) (apart : List (List String)) : Prop :=
  ∀ place ∉ apart, t'.node? place = t.node? place ∨
    t.node? place = none ∧ t'.node? place = some .directory

theorem Keeps.refl (t : FileTree) (apart : List (List String)) : t.Keeps t apart :=
  fun _ _ => .inl rfl

theorem Keeps.trans (h : t.Keeps t' apart) (h' : t'.Keeps t'' apart') :
    t.Keeps t'' (apart ++ apart') := by
  intro place hplace
  rw [List.mem_append, not_or] at hplace
  have hfirst := h place hplace.1
  rcases h' place hplace.2 with hsame | ⟨hnone, hnew⟩
  · rwa [hsame]
  · rcases hfirst with hsame | ⟨-, hnew'⟩
    · exact .inr ⟨hsame ▸ hnone, hnew⟩
    · rw [hnone] at hnew'
      cases hnew'

theorem keeps_insert (t : FileTree) (place : List String) (n : FileNode) :
    t.Keeps (t.insert place n) [place] :=
  fun _ hplace => .inl (node?_insert_of_ne (List.ne_of_not_mem_cons hplace))

theorem keeps_insert_directory (h : t.node? place = none) :
    t.Keeps (t.insert place .directory) [] := by
  have hplace : place ≠ [] := by
    rintro rfl
    cases h
  intro place' _
  by_cases heq : place' = place
  · subst heq
    exact .inr ⟨h, node?_insert_self hplace⟩
  · exact .inl (node?_insert_of_ne heq)

/-- What stands in a tree stands in another one as well. -/
def IsWithin (t t' : FileTree) : Prop := ∀ place n, t.node? place = some n → t'.node? place = some n

theorem IsWithin.trans (h : t.IsWithin t') (h' : t'.IsWithin t'') : t.IsWithin t'' :=
  fun place n hn => h' place n (h place n hn)

theorem hasDirectory_iff : t.hasDirectory place = true ↔ t.node? place = some .directory := by
  rw [hasDirectory, decide_eq_true_eq]

theorem IsWithin.hasDirectory (h : t.IsWithin t') (hplace : t.hasDirectory place = true) :
    t'.hasDirectory place = true :=
  hasDirectory_iff.mpr (h place _ (hasDirectory_iff.mp hplace))

/-- A tree becomes another one by what is put at free places, and all of that is of some kind. -/
def Gains (t t' : FileTree) (kind : List String → FileNode → Prop) : Prop :=
  ∀ place, t'.node? place = t.node? place ∨
    t.node? place = none ∧ ∃ n, t'.node? place = some n ∧ kind place n

variable {kind kind' : List String → FileNode → Prop}

theorem Gains.refl (t : FileTree) (kind : List String → FileNode → Prop) : t.Gains t kind :=
  fun _ => .inl rfl

theorem Gains.isWithin (h : t.Gains t' kind) : t.IsWithin t' := by
  intro place n hn
  rcases h place with hsame | ⟨hnone, -⟩
  · rw [hsame, hn]
  · rw [hn] at hnone
    cases hnone

theorem Gains.trans (h : t.Gains t' kind) (h' : t'.Gains t'' kind) : t.Gains t'' kind := by
  intro place
  rcases h' place with hsame | ⟨hnone, n, hn, hkind⟩
  · rw [hsame]
    exact h place
  · rcases h place with hsame | ⟨-, n', hn', -⟩
    · exact .inr ⟨hsame ▸ hnone, n, hn, hkind⟩
    · rw [hnone] at hn'
      cases hn'

theorem Gains.mono (h : t.Gains t' kind)
    (hkind : ∀ place n, t.node? place = none → kind place n → kind' place n) : t.Gains t' kind' :=
  fun place => (h place).imp id
    fun ⟨hnone, n, hn, hplace⟩ => ⟨hnone, n, hn, hkind place n hnone hplace⟩

theorem gains_insert (h : t.node? place = none) (hkind : kind place n) :
    t.Gains (t.insert place n) kind := by
  have hplace : place ≠ [] := by
    rintro rfl
    cases h
  intro place'
  by_cases heq : place' = place
  · subst heq
    exact .inr ⟨h, n, node?_insert_self hplace, hkind⟩
  · exact .inl (node?_insert_of_ne heq)

theorem isWithin_insert (h : t.node? place = none) : t.IsWithin (t.insert place n) := by
  have hgains : t.Gains (t.insert place n) fun _ _ => True := gains_insert h trivial
  exact hgains.isWithin

/-! ### Where paths lead -/

def Place.names : Place → List String
  | .taken place => place
  | .free directory name => directory ++ [name]

/-- A path leads to a place, whether or not something stands there. -/
def LeadsTo (t : FileTree) (use : PathUse) (p : FilePath) (place : List String) : Prop :=
  ∃ found, t.resolve use p = .ok found ∧ found.names = place

theorem node?_of_walk_eq_free {directory : List String} {name : String}
    (h : t.walk use links current segments = .ok (.free directory name)) :
    t.node? (directory ++ [name]) = none := by
  fun_induction walk t use links current segments with
  | case7 _ _ _ _ _ _ _ _ _ _ hnode =>
      cases h
      exact hnode
  | case3 | case4 | case11 | case12 =>
      rename_i ih
      exact ih h
  | _ => cases h

theorem node?_of_resolve_eq_free {directory : List String} {name : String}
    (h : t.resolve use p = .ok (.free directory name)) : t.node? (directory ++ [name]) = none := by
  rw [resolve] at h
  split at h
  · cases h
  · exact node?_of_walk_eq_free h

/-! ### Walking step by step -/

/-- An ordinary name, which leads from a directory to what it holds. -/
def IsName (s : String) : Prop := s ∉ ["", ".", ".."] ∧ s.utf8ByteSize ≤ nameLimit

instance (s : String) : Decidable (IsName s) :=
  inferInstanceAs (Decidable (_ ∧ _))

theorem walk_nil : t.walk use links current [] = .ok (.taken current) := by
  rw [walk]

theorem walk_here_cons (h : t.hasDirectory current = true) :
    t.walk use links current ("." :: rest) = t.walk use links current rest := by
  rw [walk, if_neg (by simp [h]), if_pos (by decide)]

theorem walk_of_not_hasDirectory (h : t.hasDirectory current = false) :
    t.walk use links current (s :: rest) = .error .notDirectory := by
  rw [walk, if_pos (by simp [h])]

theorem walk_free (h : t.hasDirectory current = true) (hs : IsName s)
    (hnode : t.node? (current ++ [s]) = none) :
    t.walk use links current [s] = .ok (.free current s) := by
  obtain ⟨hordinary, hsize⟩ := hs
  simp only [List.mem_cons, List.not_mem_nil, or_false, not_or] at hordinary
  rw [walk, if_neg (by simp [h]), if_neg (by simp [hordinary]), if_neg hordinary.2.2,
    if_neg (by simp), if_neg (Nat.not_lt.mpr hsize)]
  simp [hnode]

theorem walk_name_cons (h : t.hasDirectory current = true) (hs : IsName s) (hrest : rest ≠ [""])
    (hnode : t.node? (current ++ [s]) = some n) (hn : ∀ target, n ≠ .link target) :
    t.walk use links current (s :: rest) = t.walk use links (current ++ [s]) rest := by
  obtain ⟨hordinary, hsize⟩ := hs
  simp only [List.mem_cons, List.not_mem_nil, or_false, not_or] at hordinary
  rw [walk, if_neg (by simp [h]), if_neg (by simp [hordinary]), if_neg hordinary.2.2,
    if_neg (by simp [hrest]), if_neg (Nat.not_lt.mpr hsize)]
  cases n with
  | link target => exact absurd rfl (hn target)
  | directory => simp only [hnode]
  | file content => simp only [hnode]

theorem walk_link_cons {target : FilePath} (h : t.hasDirectory current = true) (hs : IsName s)
    (hnode : t.node? (current ++ [s]) = some (.link target)) :
    t.walk .target (links + 1) current (s :: rest) =
      t.walk .target links (if target.isAbsolute then [] else current)
        (segmentsThrough target ++ rest) := by
  obtain ⟨hordinary, hsize⟩ := hs
  simp only [List.mem_cons, List.not_mem_nil, or_false, not_or] at hordinary
  rw [walk, if_neg (by simp [h]), if_neg (by simp [hordinary]), if_neg hordinary.2.2,
    if_neg (by simp), if_neg (Nat.not_lt.mpr hsize)]
  simp [hnode]

theorem walk_link_entry {target : FilePath} (h : t.hasDirectory current = true) (hs : IsName s)
    (hnode : t.node? (current ++ [s]) = some (.link target)) :
    t.walk .entry links current [s] = .ok (.taken (current ++ [s])) := by
  obtain ⟨hordinary, hsize⟩ := hs
  simp only [List.mem_cons, List.not_mem_nil, or_false, not_or] at hordinary
  rw [walk, if_neg (by simp [h]), if_neg (by simp [hordinary]), if_neg hordinary.2.2,
    if_neg (by simp), if_neg (Nat.not_lt.mpr hsize)]
  simp [hnode]

/-! ### Paths of one name -/

variable {name : String} {content : FileContent}

theorem hasDirectory_root (t : FileTree) : t.hasDirectory [] = true := by
  simp [hasDirectory, node?]

theorem walk_here (t : FileTree) (use : PathUse) :
    t.walk use linkLimit [] ["."] = .ok (.taken []) := by
  rw [walk_here_cons t.hasDirectory_root, walk_nil]

theorem lookup_here (t : FileTree) : t.lookup ⟨"."⟩ = .ok ([], .directory) := by
  have hresolve : t.resolve .target ⟨"."⟩ = .ok (.taken []) := walk_here t .target
  rw [lookup, hresolve]
  rfl

theorem linkTarget?_here (t : FileTree) : t.linkTarget? ⟨"."⟩ = none := by
  have hresolve : t.resolve .entry ⟨"."⟩ = .ok (.taken []) := walk_here t .entry
  rw [linkTarget?, if_neg (by decide), hresolve]
  rfl

/-- The segments that a path is walked along. -/
def segmentsFor (use : PathUse) (p : FilePath) : List String :=
  if use = .entry then segmentsOf p else segmentsThrough p

theorem resolve_eq_walk (h : pathError? p = none) :
    t.resolve use p = t.walk use linkLimit [] (segmentsFor use p) := by
  rw [resolve, h]
  rfl

theorem resolve_file (herror : pathError? p = none) (hsegments : segmentsFor use p = [".", name])
    (hname : IsName name) (hnode : t.node? [name] = some (.file content)) :
    t.resolve use p = .ok (.taken [name]) := by
  rw [resolve_eq_walk herror, hsegments, walk_here_cons t.hasDirectory_root,
    walk_name_cons t.hasDirectory_root hname (by simp) hnode (by simp), walk_nil]
  rfl

theorem resolve_free (herror : pathError? p = none) (hsegments : segmentsFor use p = [".", name])
    (hname : IsName name) (hnode : t.node? [name] = none) :
    t.resolve use p = .ok (.free [] name) := by
  rw [resolve_eq_walk herror, hsegments, walk_here_cons t.hasDirectory_root,
    walk_free t.hasDirectory_root hname hnode]

theorem lookup_name (herror : pathError? p = none)
    (hsegments : segmentsFor .target p = [".", name]) (hname : IsName name)
    (hnode : t.node? [name] = some (.file content)) :
    t.lookup p = .ok ([name], .file content) := by
  rw [lookup, resolve_file herror hsegments hname hnode]
  simp only [bind, Except.bind, hnode]

/-! ### Listings -/

theorem compare_append_left (place names names' : List String) :
    compare (place ++ names) (place ++ names') = compare names names' := by
  induction place with
  | nil => rfl
  | cons s place ih =>
      rw [List.cons_append, List.cons_append, List.compare_cons_cons, Std.ReflOrd.compare_self, ih]
      rfl

theorem pairwise_below (t : FileTree) (place : List String) :
    (t.below place).Pairwise fun x y => compare x.1 y.1 = .lt := by
  have hnames : ∀ (x y : List String × FileNode),
      (if place.isPrefixOf x.1 && x.1 ≠ place then some (x.1.drop place.length, x.2) else none) =
        some y → x.1 = place ++ y.1 := by
    intro x y h
    split at h
    · rename_i hbelow
      rw [Bool.and_eq_true, List.isPrefixOf_iff_prefix] at hbelow
      cases h
      exact (List.prefix_iff_eq_append.mp hbelow.1).symm
    · cases h
  refine List.Pairwise.filterMap _ ?_ t.nodes.sorted
  intro x x' hlt y hy y' hy'
  rwa [hnames x y hy, hnames x' y' hy', compare_append_left] at hlt

theorem pairwise_filterMap_name {f : List String × FileNode → Option (String × FileContent)}
    (hf : ∀ x y, f x = some y → x.1 = [y.1]) {l : List (List String × FileNode)}
    (h : l.Pairwise fun x y => compare x.1 y.1 = .lt) :
    (l.filterMap f).Pairwise fun x y => compare x.1 y.1 = .lt := by
  refine h.filterMap _ fun x x' hlt y hy y' hy' => ?_
  rw [hf x y hy, hf x' y' hy', List.compare_cons_cons] at hlt
  simpa [Ordering.then_eq_lt] using hlt

theorem pairwise_filesIn {files : List (String × FileContent)} (h : t.filesIn p = .ok files) :
    files.Pairwise fun x y => compare x.1 y.1 = .lt := by
  rw [filesIn] at h
  obtain ⟨⟨place, n⟩, -, h⟩ := exists_of_bind_eq_ok h
  cases n with
  | directory =>
      cases h
      refine pairwise_filterMap_name (fun x y hxy => ?_) (t.pairwise_below place)
      split at hxy
      · split at hxy
        · cases hxy
          rfl
        · cases hxy
      · cases hxy
  | _ => cases h

end FileTree

end DepSolver
