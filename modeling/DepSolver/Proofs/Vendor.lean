import DepSolver.Proofs.Disk.Following
import DepSolver.Proofs.Disk.Operation
import DepSolver.Vendor

/-!
Where links of vendor trees lead, and what making them leaves. A link leads by a path that undoes,
step by step, the text of the path to its directory; so it leads to its target if that path goes
straight down from where it parts from the path of the target.
-/

namespace DepSolver

namespace Vendor

open FileTree
open FilePath (IsBelow IsOrdinary)

variable {t t' : FileTree} {link target parent : FilePath}

/-! ### One link -/

/-- The tree after an attempt to make a directory. -/
def ensured (parent : FilePath) (t : FileTree) : FileTree :=
  ((Disk.ensureDirectory parent).run.run t).2

theorem run_blame {α : Type} (path : FilePath) (x : DiskM α) (t : FileTree) :
    (blame path x).run.run t =
      match x.run.run t with
      | (.ok a, t') => (.ok a, t')
      | (.error e, t') => (.error ⟨path, e⟩, t') := by
  have houtcome : (liftM (ExceptT.run (Disk.outcome x)) :
      ExceptT VendorFailure (StateM FileTree) (Except DiskError (Except DiskError α))).run.run t =
        (.ok (.ok (x.run.run t).1), (x.run.run t).2) := rfl
  rw [blame, run_bind_eq, houtcome]
  rcases x.run.run t with ⟨r, t'⟩
  cases r <;> rfl

/-- Make a link by a path from its directory, unless one leads there already. -/
def relink (relative link : FilePath) : ExceptT VendorFailure (StateM FileTree) Unit := do
  let current := (← getThe FileTree).linkTarget? link
  if current.any (·.sameAs relative) then return
  blame link (Disk.makeLink relative link)

theorem run_relink (relative link : FilePath) (t : FileTree) :
    (relink relative link).run.run t =
      if (t.linkTarget? link).any (·.sameAs relative) then (.ok (), t)
      else (blame link (Disk.makeLink relative link)).run.run t := by
  change (if (t.linkTarget? link).any (·.sameAs relative) then return
    else blame link (Disk.makeLink relative link) :
    ExceptT VendorFailure (StateM FileTree) Unit).run.run t = _
  split <;> rfl

private theorem relink_cases (relative link : FilePath) (t : FileTree) :
    (∃ f, f.path = link ∧ (relink relative link).run.run t = (.error f, t)) ∨
    (∃ current, t.linkTarget? link = some current ∧ current.sameAs relative = true ∧
      (relink relative link).run.run t = (.ok (), t)) ∨
    ∃ directory name, t.resolve .entry link = .ok (.free directory name) ∧
      (relink relative link).run.run t =
        (.ok (), t.insert (directory ++ [name]) (.link relative)) := by
  rw [run_relink]
  split
  · rename_i hany
    obtain ⟨current, hcurrent, hsame⟩ := (Option.any_eq_true _ _).mp hany
    exact .inr (.inl ⟨current, hcurrent, hsame, rfl⟩)
  · rw [run_blame]
    rcases Disk.makeLink_cases relative link t with ⟨e, hmake⟩ | ⟨directory, name, hfree, hmake⟩
    · rw [hmake]
      exact .inl ⟨_, rfl, rfl⟩
    · rw [hmake]
      exact .inr (.inr ⟨directory, name, hfree, rfl⟩)

theorem run_linkInto_of_free {parent relative : FilePath} {directory : List String} {name : String}
    (hparent : link.parent? = some parent) (hexists : t.pathExists parent = true)
    (hrelative : target.relativeTo parent = some relative)
    (hfree : t.resolve .entry link = .ok (.free directory name))
    (hlink : asDirectory link = false) (hpath : pathError? relative = none) :
    (linkInto link target).run.run t =
      (.ok (), t.insert (directory ++ [name]) (.link relative)) := by
  have hcurrent : t.linkTarget? link = none := by
    rw [linkTarget?, if_neg (by simp [hlink]), hfree]
  have hrelink : (relink relative link).run.run t =
      (.ok (), t.insert (directory ++ [name]) (.link relative)) := by
    rw [run_relink, hcurrent, run_blame, Disk.run_makeLink_of_free hfree hlink hpath]
    rfl
  rw [linkInto, hparent]
  dsimp only
  rw [run_bind_eq, run_blame, Disk.run_ensureDirectory_of_pathExists hexists]
  dsimp only
  rw [hrelative]
  exact hrelink

theorem linkInto_cases (link target : FilePath) (t : FileTree) :
    (∃ f t', (linkInto link target).run.run t = (.error f, t') ∧
      (f.path = link ∨ link.parent? = some f.path) ∧
      (t' = t ∨ ∃ parent, link.parent? = some parent ∧ t' = ensured parent t)) ∨
    ∃ parent relative, link.parent? = some parent ∧ target.relativeTo parent = some relative ∧
      ((∃ current, (ensured parent t).linkTarget? link = some current ∧
          current.sameAs relative = true ∧
          (linkInto link target).run.run t = (.ok (), ensured parent t)) ∨
        ∃ directory name, (ensured parent t).resolve .entry link = .ok (.free directory name) ∧
          (linkInto link target).run.run t =
            (.ok (), (ensured parent t).insert (directory ++ [name]) (.link relative))) := by
  rw [linkInto]
  cases hparent : link.parent? with
  | none => exact .inl ⟨_, t, rfl, .inl rfl, .inl rfl⟩
  | some parent =>
      dsimp only
      rw [run_bind_eq, run_blame]
      rcases hrun : (Disk.ensureDirectory parent).run.run t with ⟨result, t'⟩
      have hensured : ensured parent t = t' := by rw [ensured, hrun]
      have hreached : t' = t ∨ ∃ other, some parent = some other ∧ t' = ensured other t :=
        .inr ⟨parent, rfl, hensured.symm⟩
      cases result with
      | error e => exact .inl ⟨_, t', rfl, .inr rfl, hreached⟩
      | ok _ =>
          dsimp only
          cases hrelative : target.relativeTo parent with
          | none => exact .inl ⟨_, t', rfl, .inl rfl, hreached⟩
          | some relative =>
              rw [← hensured] at hreached ⊢
              rcases relink_cases relative link (ensured parent t) with
                ⟨f, hf, hrelink⟩ | ⟨current, hcurrent, hsame, hrelink⟩ |
                ⟨directory, name, hfree, hrelink⟩
              · exact .inl ⟨f, _, hrelink, .inl hf, hreached⟩
              · exact .inr ⟨parent, relative, rfl, hrelative,
                  .inl ⟨current, hcurrent, hsame, hrelink⟩⟩
              · exact .inr ⟨parent, relative, rfl, hrelative,
                  .inr ⟨directory, name, hfree, hrelink⟩⟩

private theorem names_of_run_linkInto {f : VendorFailure}
    (h : ((linkInto link target).run.run t).1 = .error f) :
    f.path = link ∨ link.parent? = some f.path := by
  rcases linkInto_cases link target t with ⟨f', t', hrun, hnames, -⟩ |
    ⟨parent, relative, -, -, ⟨current, -, -, hrun⟩ | ⟨directory, name, -, hrun⟩⟩
  · rw [hrun] at h
    cases h
    exact hnames
  · rw [hrun] at h
    cases h
  · rw [hrun] at h
    cases h

/-! ### Where a link is made -/

/-- A link that is to be made at a name below a directory: the path to that directory and its place,
the names of the directories in between, and the name of the link. -/
structure Site where
  link : FilePath
  target : FilePath
  origin : FilePath
  start : List String
  names : List String
  name : String

namespace Site

variable {x y : Site}

def place (x : Site) : List String := x.start ++ x.names ++ [x.name]

/-- The places of the directories that the link needs. -/
def IsOnWay (x : Site) (place : List String) : Prop :=
  ∃ way, way <+: x.names ∧ place = x.start ++ way

/-- No link is met on the way to a site. -/
structure IsClear (t : FileTree) (x : Site) : Prop where
  reached : ∃ links ≤ linkLimit, t.Follows links [] x.origin.steps x.start
  below : IsBelow x.origin x.link (x.names ++ [x.name])
  free : t.IsFreeOfLinks x.start x.names

/-- What an attempt to make the link may put into a tree. -/
inductive Brings (x : Site) : List String → FileNode → Prop
  | directory {place : List String} : x.IsOnWay place → x.Brings place .directory
  | link (target : FilePath) : x.Brings x.place (.link target)

/-- The link stands in its directory, and leads to its target by the text of the paths. -/
structure IsLinked (t : FileTree) (x : Site) : Prop where
  isPath : pathError? x.link = none
  descends : t.Descends x.start x.names
  named : ∀ s ∈ x.names ++ [x.name], IsName s
  stands : ∃ parent relative current, x.link.parent? = some parent ∧
    x.target.relativeTo parent = some relative ∧ current.components = relative.components ∧
    t.node? x.place = some (.link current)

theorem IsLinked.of_isWithin (h : x.IsLinked t) (hwithin : t.IsWithin t') : x.IsLinked t' where
  isPath := h.isPath
  descends := h.descends.of_isWithin hwithin
  named := h.named
  stands := by
    obtain ⟨parent, relative, current, hparent, hrelative, hcurrent, hnode⟩ := h.stands
    exact ⟨parent, relative, current, hparent, hrelative, hcurrent, hwithin _ _ hnode⟩

theorem IsClear.of_gains {kind : List String → FileNode → Prop} (h : x.IsClear t)
    (hgains : t.Gains t' kind)
    (hkind : ∀ place target, x.IsOnWay place → t.node? place = none → ¬ kind place (.link target)) :
    x.IsClear t' where
  reached := by
    obtain ⟨links, hle, hfollows⟩ := h.reached
    exact ⟨links, hle, hfollows.of_isWithin hgains.isWithin⟩
  below := h.below
  free := by
    intro way hway target hlink
    rcases hgains (x.start ++ way) with hsame | ⟨hnone, n, hn, hplace⟩
    · exact h.free way hway target (hsame ▸ hlink)
    · rw [hlink] at hn
      cases hn
      exact hkind _ target ⟨way, hway, rfl⟩ hnone hplace

theorem IsClear.gains_ensured (h : x.IsClear t) (hparent : x.link.parent? = some parent) :
    t.Gains (ensured parent t) fun place n => n = .directory ∧ x.IsOnWay place := by
  have hsteps : parent.steps = x.origin.steps ++ x.names := by
    rw [FilePath.steps, h.below.components_parent? hparent, List.filterMap_append,
      FilePath.filterMap_step?_names]
    rfl
  refine Disk.ensureDirectory_maintains (I := fun u => t.Gains u _) (fun q hq => ?_) t
    (Gains.refl t _)
  intro u directory name hgains hfree
  have hclear : x.IsClear u := h.of_gains hgains fun _ _ _ _ hkind => by cases hkind.1
  obtain ⟨links, hle, hfollows⟩ := hclear.reached
  have habove : q.steps <+: x.origin.steps ++ x.names := by
    rw [← hsteps]
    exact (FilePath.components_isPrefix_of_mem_ancestors hq).filterMap _
  obtain ⟨way, hway, hplace⟩ := exists_of_resolve_eq_free hfollows hle hclear.free
    (fun s hs => h.below.ordinary s (List.mem_append_left _ hs)) habove hfree
  refine hgains.trans (gains_insert (node?_of_resolve_eq_free hfree) ?_)
  exact ⟨rfl, way, hway, hplace⟩

theorem IsClear.of_ensured (h : x.IsClear t) (hparent : x.link.parent? = some parent) :
    x.IsClear (ensured parent t) :=
  h.of_gains (h.gains_ensured hparent) fun _ _ _ _ hkind => by cases hkind.1

theorem IsClear.gains_of_ensured (h : x.IsClear t) (hparent : x.link.parent? = some parent) :
    t.Gains (ensured parent t) x.Brings := by
  refine (h.gains_ensured hparent).mono ?_
  rintro place n - ⟨rfl, hplace⟩
  exact .directory hplace

theorem IsClear.resolve_entry {found : Place} (h : x.IsClear t)
    (hfound : t.resolve .entry x.link = .ok found) :
    pathError? x.link = none ∧ t.Descends x.start x.names ∧
      (∀ s ∈ x.names ++ [x.name], IsName s) ∧
      ((t.node? x.place = none ∧ found = .free (x.start ++ x.names) x.name) ∨
        (t.node? x.place ≠ none ∧ found = .taken x.place)) := by
  obtain ⟨links, hle, hfollows⟩ := h.reached
  obtain ⟨more, hmore⟩ := Nat.exists_eq_add_of_le hle
  rw [resolve] at hfound
  cases hpath : pathError? x.link with
  | some e =>
      rw [hpath] at hfound
      cases hfound
  | none =>
      have hsegments : t.Follows links [] (segmentsOf x.origin) x.start :=
        hfollows.congr (by rw [FilePath.filter_segmentsOf, filter_steps])
      rw [hpath] at hfound
      simp only [if_pos] at hfound
      rw [h.below.segments, hmore, hsegments.walk_append more (.inr ⟨rfl, by simp⟩)] at hfound
      exact ⟨rfl, walk_entry_below hfound h.free h.below.ordinary⟩

theorem IsClear.isLinked_of_linkTarget? {relative current : FilePath} (h : x.IsClear t)
    (hparent : x.link.parent? = some parent) (hrelative : x.target.relativeTo parent = some relative)
    (hcurrent : t.linkTarget? x.link = some current) (hsame : current.sameAs relative = true) :
    x.IsLinked t := by
  rw [linkTarget?, if_neg (by simp [h.below.entry])] at hcurrent
  cases hfound : t.resolve .entry x.link with
  | error e =>
      rw [hfound] at hcurrent
      cases hcurrent
  | ok found =>
      obtain ⟨hpath, hdescends, hnamed, ⟨hnone, rfl⟩ | ⟨-, rfl⟩⟩ := h.resolve_entry hfound
      · rw [hfound] at hcurrent
        cases hcurrent
      · rw [hfound] at hcurrent
        dsimp only at hcurrent
        split at hcurrent
        · rename_i hnode
          cases hcurrent
          exact ⟨hpath, hdescends, hnamed, parent, relative, current, hparent, hrelative,
            by simpa [FilePath.sameAs] using hsame, hnode⟩
        · cases hcurrent

theorem IsClear.isLinked_insert {relative : FilePath} {directory : List String} {name : String}
    (h : x.IsClear t) (hparent : x.link.parent? = some parent)
    (hrelative : x.target.relativeTo parent = some relative)
    (hfree : t.resolve .entry x.link = .ok (.free directory name)) :
    t.Gains (t.insert (directory ++ [name]) (.link relative)) x.Brings ∧
      x.IsLinked (t.insert (directory ++ [name]) (.link relative)) := by
  obtain ⟨hpath, hdescends, hnamed, ⟨hnone, hplace⟩ | ⟨-, hplace⟩⟩ := h.resolve_entry hfree
  · cases hplace
    have hgains : t.Gains (t.insert x.place (.link relative)) x.Brings :=
      gains_insert hnone (.link relative)
    refine ⟨hgains, hpath, hdescends.of_isWithin hgains.isWithin, hnamed, ?_⟩
    exact ⟨parent, relative, relative, hparent, hrelative, rfl, node?_insert_self (by simp)⟩
  · cases hplace

/-- An attempt to make a link that is clear brings what it may bring, and makes the link unless it
fails. -/
theorem IsClear.linkInto (h : x.IsClear t) :
    ∃ result t', (Vendor.linkInto x.link x.target).run.run t = (result, t') ∧
      t.Gains t' x.Brings ∧ (result = .ok () → x.IsLinked t') := by
  rcases linkInto_cases x.link x.target t with
    ⟨f, t', hrun, -, rfl | ⟨parent, hparent, rfl⟩⟩ | ⟨parent, relative, hparent, hrelative, hcases⟩
  · exact ⟨_, _, hrun, Gains.refl _ _, nofun⟩
  · exact ⟨_, _, hrun, h.gains_of_ensured hparent, nofun⟩
  have hclear := h.of_ensured hparent
  have hgains := h.gains_of_ensured hparent
  rcases hcases with ⟨current, hcurrent, hsame, hrun⟩ | ⟨directory, name, hfree, hrun⟩
  · exact ⟨_, _, hrun, hgains,
      fun _ => hclear.isLinked_of_linkTarget? hparent hrelative hcurrent hsame⟩
  · obtain ⟨hinsert, hlinked⟩ := hclear.isLinked_insert hparent hrelative hfree
    exact ⟨_, _, hrun, hgains.trans hinsert, fun _ => hlinked⟩

end Site

/-! ### Links one after another -/

theorem run_linkAll_cons (link target : FilePath) (rest : List (FilePath × FilePath))
    (t : FileTree) : (linkAll ((link, target) :: rest)).run t =
      match (linkInto link target).run.run t with
      | (.ok (), t') => (linkAll rest).run t'
      | (.error f, t') => (f :: ((linkAll rest).run t').1, ((linkAll rest).run t').2) := by
  rw [linkAll, StateT.run_bind]
  rcases hrun : (linkInto link target).run.run t with ⟨result, t'⟩
  cases result <;> rfl

private theorem run_linkAll_cons_snd (link target : FilePath) (rest : List (FilePath × FilePath))
    (t : FileTree) : ((linkAll ((link, target) :: rest)).run t).2 =
      ((linkAll rest).run ((linkInto link target).run.run t).2).2 := by
  rw [run_linkAll_cons]
  rcases (linkInto link target).run.run t with ⟨_ | _, t'⟩ <;> rfl

/-- The attempts to make links one after another: each link and its target, and what comes of it. -/
def attempts : List (FilePath × FilePath) → FileTree →
    List ((FilePath × FilePath) × Except VendorFailure Unit)
  | [], _ => []
  | (link, target) :: rest, t =>
      let (result, t') := (linkInto link target).run.run t
      ((link, target), result) :: attempts rest t'

theorem attempts_cons (link target : FilePath) (rest : List (FilePath × FilePath)) (t : FileTree) :
    attempts ((link, target) :: rest) t =
      ((link, target), ((linkInto link target).run.run t).1) ::
        attempts rest ((linkInto link target).run.run t).2 := rfl

/-- No attempt to make a link to a target fails. -/
def IsUnreported (links : List (FilePath × FilePath)) (t : FileTree) (link target : FilePath) :
    Prop :=
  ∀ f, ((link, target), .error f) ∉ attempts links t

def failure? : (FilePath × FilePath) × Except VendorFailure Unit → Option VendorFailure
  | (_, .ok ()) => none
  | (_, .error f) => some f

/-- Failures are those of the attempts to make links, in their order, and each names the link that
was to be made or its directory. -/
structure Reports (links : List (FilePath × FilePath)) (t : FileTree)
    (failures : List VendorFailure) : Prop where
  eq_filterMap : failures = (attempts links t).filterMap failure?
  names : ∀ link target f, ((link, target), .error f) ∈ attempts links t →
    f.path = link ∨ link.parent? = some f.path

theorem reports_run_linkAll (links : List (FilePath × FilePath)) (t : FileTree) :
    Reports links t ((linkAll links).run t).1 := by
  induction links generalizing t with
  | nil => exact ⟨rfl, fun _ _ _ h => absurd h List.not_mem_nil⟩
  | cons x rest ih =>
      obtain ⟨link, target⟩ := x
      obtain ⟨heq, hnames⟩ := ih ((linkInto link target).run.run t).2
      rw [run_linkAll_cons]
      refine ⟨?_, fun link' target' f hmem => ?_⟩
      · rw [attempts_cons, List.filterMap_cons, ← heq]
        rcases (linkInto link target).run.run t with ⟨_ | _, t'⟩ <;> rfl
      · rw [attempts_cons] at hmem
        rcases List.mem_cons.mp hmem with hhead | htail
        · obtain ⟨hlink, hresult⟩ := Prod.mk.inj hhead
          obtain ⟨rfl, rfl⟩ := Prod.mk.inj hlink
          exact names_of_run_linkInto hresult.symm
        · exact hnames link' target' f htail

theorem isUnreported_of_run_eq_nil {links : List (FilePath × FilePath)}
    (h : ((linkAll links).run t).1 = []) (link target : FilePath) :
    IsUnreported links t link target := by
  intro f hmem
  have hfailure : f ∈ (attempts links t).filterMap failure? :=
    List.mem_filterMap.mpr ⟨_, hmem, rfl⟩
  rw [← (reports_run_linkAll links t).eq_filterMap, h] at hfailure
  cases hfailure

/-- No site is on the way to another one, unless something stands there already. -/
def AreApart (t : FileTree) (sites : List Site) : Prop :=
  ∀ x ∈ sites, ∀ y ∈ sites, y.IsOnWay x.place → t.node? x.place ≠ none

/-- The link of a site and its target. -/
def Site.ends (x : Site) : FilePath × FilePath := (x.link, x.target)

/-- Links at sites that are clear and apart bring what each of them may bring, and are made unless a
failure is reported. -/
theorem run_linkAll_sites {sites : List Site} (hclear : ∀ x ∈ sites, x.IsClear t)
    (hapart : AreApart t sites) :
    t.Gains ((linkAll (sites.map Site.ends)).run t).2 (fun place n => ∃ x ∈ sites, x.Brings place n) ∧
      ∀ x ∈ sites, IsUnreported (sites.map Site.ends) t x.link x.target →
        x.IsLinked ((linkAll (sites.map Site.ends)).run t).2 := by
  induction sites generalizing t with
  | nil => exact ⟨Gains.refl _ _, nofun⟩
  | cons x sites ih =>
      obtain ⟨hx, hsites⟩ := List.forall_mem_cons.mp hclear
      obtain ⟨result, t', hrun, hgains, hresult⟩ := hx.linkInto
      have hclear' : ∀ y ∈ sites, y.IsClear t' := by
        intro y hy
        refine (hsites y hy).of_gains hgains fun place target hway hnone hbrings => ?_
        cases hbrings
        exact hapart x List.mem_cons_self y (List.mem_cons_of_mem _ hy) hway hnone
      have hapart' : AreApart t' sites := by
        intro y hy z hz hway
        obtain ⟨n, hn⟩ := Option.ne_none_iff_exists'.mp
          (hapart y (List.mem_cons_of_mem _ hy) z (List.mem_cons_of_mem _ hz) hway)
        rw [hgains.isWithin _ n hn]
        simp
      obtain ⟨hgains', hlinked⟩ := ih hclear' hapart'
      have hattempts : attempts ((x :: sites).map Site.ends) t =
          (x.ends, result) :: attempts (sites.map Site.ends) t' := by
        rw [List.map_cons, Site.ends, attempts_cons, hrun]
      have hsnd : ((linkAll ((x :: sites).map Site.ends)).run t).2 =
          ((linkAll (sites.map Site.ends)).run t').2 := by
        rw [List.map_cons, Site.ends, run_linkAll_cons_snd, hrun]
      rw [hsnd]
      refine ⟨(hgains.mono ?_).trans (hgains'.mono ?_), List.forall_mem_cons.mpr ⟨?_, ?_⟩⟩
      · exact fun place n _ h => ⟨x, List.mem_cons_self, h⟩
      · exact fun place n _ ⟨y, hy, h⟩ => ⟨y, List.mem_cons_of_mem _ hy, h⟩
      · intro hunreported
        rw [IsUnreported, hattempts] at hunreported
        cases result with
        | error f => exact absurd List.mem_cons_self (hunreported f)
        | ok _ => exact (hresult rfl).of_isWithin hgains'.isWithin
      · intro y hy hunreported
        rw [IsUnreported, hattempts] at hunreported
        exact hlinked y hy fun f hf => hunreported f (List.mem_cons_of_mem _ hf)

/-! ### Where a link leads -/

/-- The path from below a place leads to the target, if the paths part at a directory above. -/
theorem follows_relative {origin relative : FilePath} {start names place : List String}
    {links : Nat} (hparent : parent.components = origin.components ++ names.map .name)
    (hordinary : ∀ s ∈ names, IsOrdinary s)
    (habsolute : target.isAbsolute = parent.isAbsolute)
    (hparts : t.PartsAt origin target start) (hdescends : t.Descends start names)
    (htarget : t.Follows links [] target.steps place)
    (hrelative : target.relativeTo parent = some relative) :
    relative.isAbsolute = false ∧
      ∃ links' ≤ links, t.Follows links' (start ++ names) relative.steps place := by
  obtain ⟨shared, down, fork, horigin, ⟨rest, hshared⟩, hwalk, rfl, hdown⟩ := hparts
  have hbase : parent.components = shared ++ (down ++ names).map .name := by
    rw [hparent, horigin, List.map_append, List.append_assoc]
  obtain ⟨common, below, after, hnames, hrest, hnot, hsteps⟩ :=
    FilePath.relativeTo_eq_some habsolute hbase hshared.symm hrelative
  refine ⟨hnot, ?_⟩
  have hordinary' : ∀ s ∈ common, IsOrdinary s := by
    intro s hs
    have hmem : s ∈ down ++ names := by simp [hnames, hs]
    rcases List.mem_append.mp hmem with hdown | hnames
    · exact (FilePath.isPlain_of_mem_components (p := origin) (c := .name s)
        (by simp [horigin, hdown]) (by simp)).1
    · exact hordinary s hnames
  have hall : t.Descends fork (common ++ below) := by
    rw [← hnames]
    exact hdown.append hdescends
  have hcommon : t.Descends fork common :=
    fun way hway => hall way (hway.trans (List.prefix_append _ _))
  have hbelow : t.Descends (fork ++ common) below := by
    intro way hway
    rw [List.append_assoc]
    exact hall _ ((List.prefix_append_right_inj common).mpr hway)
  have htarget' : t.Follows links [] (shared.filterMap FilePath.Component.step? ++
      (common ++ after.filterMap FilePath.Component.step?)) place := by
    rwa [FilePath.steps, ← hshared, hrest, List.filterMap_append, List.filterMap_append,
      FilePath.filterMap_step?_names] at htarget
  obtain ⟨links₁, links₂, between, rfl, hfork, hafter⟩ := htarget'.exists_of_append
  obtain ⟨_, -, hfork'⟩ := exists_follows_of_walk hwalk
    (by simpa using hcommon [] List.nil_prefix)
  obtain rfl := hfork.unique hfork'
  refine ⟨links₂, Nat.le_add_left _ _, ?_⟩
  rw [hsteps, List.append_assoc, hnames, ← List.append_assoc, ← Nat.zero_add links₂]
  exact hbelow.follows_up.append (hcommon.follows_of_append hordinary' hafter)

theorem Site.IsLinked.lookup {x : Site} {links links' : Nat} {place : List String}
    (h : x.IsLinked t') (hwithin : t.IsWithin t') (hclear : x.IsClear t)
    (horigin : t.LeadsWithin links x.origin x.start)
    (htarget : t'.Follows links' [] x.target.steps place) (hlinks : links + links' < linkLimit)
    (hparts : x.target.isAbsolute = x.origin.isAbsolute → t.PartsAt x.origin x.target x.start) :
    t'.lookup x.link = .ok (place, .directory) := by
  have hbelow := hclear.below
  obtain ⟨reached, hreached, horigin'⟩ := horigin.exists_follows
  obtain ⟨parent, relative, current, hparent, hrelative, hcurrent, hnode⟩ := h.stands
  have hcomponents := hbelow.components_parent? hparent
  have habsolute := FilePath.isAbsolute_of_append horigin.text_ne hcomponents
  have hcurrent' : ∃ links'' ≤ links', t'.Follows links''
      (if current.isAbsolute then [] else x.start ++ x.names) current.steps place := by
    rw [FilePath.isAbsolute_congr hcurrent, FilePath.steps, hcurrent, ← FilePath.steps]
    by_cases hkind : x.target.isAbsolute = parent.isAbsolute
    · obtain ⟨hnot, hfollows⟩ := follows_relative hcomponents
        (fun s hs => hbelow.ordinary s (List.mem_append_left _ hs)) hkind
        ((hparts (hkind.trans habsolute)).of_isWithin hwithin) h.descends htarget hrelative
      rwa [if_neg (by simp [hnot])]
    · rw [FilePath.relativeTo, if_neg hkind] at hrelative
      split at hrelative
      · rename_i hroot
        cases hrelative
        rw [if_pos hroot]
        exact ⟨links', le_rfl, htarget⟩
      · cases hrelative
  obtain ⟨links'', hle, hfollows⟩ := hcurrent'
  have hsegments : t'.Follows links'' (if current.isAbsolute then [] else x.start ++ x.names)
      (segmentsThrough current ++ []) place :=
    hfollows.congr (by rw [List.append_nil, filter_segmentsThrough, filter_steps])
  have hlink : t'.Follows (links'' + 1) (x.start ++ x.names) [x.name] place :=
    .link h.descends.hasDirectory_right (h.named x.name (by simp)) hnode hsegments
  have hnames : ∀ s ∈ x.names, IsName s := fun s hs => h.named s (List.mem_append_left _ hs)
  have hwhole := (horigin'.of_isWithin hwithin).append ((h.descends.follows hnames).append hlink)
  rw [← hbelow.steps] at hwhole
  exact lookup_of_follows h.isPath hwhole (by omega)

end Vendor

end DepSolver
