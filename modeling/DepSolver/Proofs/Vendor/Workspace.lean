import DepSolver.Proofs.Vendor

/-!
The links of a project and of a workspace. Each leads where it should, and nothing is made but in the
vendor directory, if the links do not get into the way of one another and no link gets into the way
of the text of a path. A project whose import path is below that of another one is linked inside the
other one.
-/

namespace DepSolver

namespace Vendor

open FileTree
open FilePath (IsBelow IsOrdinary)

variable {t t' : FileTree} {link target parent : FilePath}

/-! ### Entries of vendor directories -/

/-- Paths of names that can have a link each below a directory: no link is met on the way to one, and
none is on the way to another, unless a directory stands there. -/
structure ArePlaceable (t : FileTree) (directory : List String) (paths : List String) : Prop where
  ordinary : ∀ path ∈ paths, ∀ s ∈ Text.split '/' path, IsOrdinary s
  free : ∀ path ∈ paths, t.IsFreeOfLinks directory (Text.split '/' path).dropLast
  apart : ∀ path ∈ paths, ∀ other ∈ paths, path ≠ other →
    Text.split '/' path <+: Text.split '/' other →
    t.hasDirectory (directory ++ Text.split '/' path) = true

variable {project workspace : FilePath} {place : List String} {links : Nat}

/-- The entry of a path in the vendor directory of a project. -/
def entrySite (project : FilePath) (place : List String) (path : String) (target : FilePath) :
    Site where
  link := (directoryOf project).join ⟨path⟩
  target := target
  origin := project
  start := place
  names := "vendor" :: (Text.split '/' path).dropLast
  name := (Text.split '/' path).getLast (Text.split_ne_nil _ _)

/-- The vendor directory of a member, which is a link. -/
def memberSite (directory : FilePath) (place : List String) (target : FilePath) : Site where
  link := directoryOf directory
  target := target
  origin := directory
  start := place
  names := []
  name := "vendor"

private theorem link_entrySite (project : FilePath) (place : List String) (path : String)
    (target : FilePath) : (entrySite project place path target).link =
      (directoryOf project).join ⟨path⟩ := by
  simp only [entrySite]

private theorem link_memberSite (directory : FilePath) (place : List String) (target : FilePath) :
    (memberSite directory place target).link = directoryOf directory := by
  simp only [memberSite]

theorem isBelow_directoryOf (hproject : project.text ≠ "") :
    IsBelow project (directoryOf project) ["vendor"] := by
  have hsplit : Text.split '/' "vendor" = ["vendor"] := by decide
  have hbelow := FilePath.isBelow_join "vendor" hproject
    (by rw [hsplit]; exact List.forall_mem_singleton.mpr (by decide))
  rwa [hsplit] at hbelow

private theorem text_directoryOf_ne (hproject : project.text ≠ "") :
    (directoryOf project).text ≠ "" :=
  FilePath.text_join_ne hproject (by decide)

theorem names_entrySite (project : FilePath) (place : List String) (path : String)
    (target : FilePath) : (entrySite project place path target).names ++
      [(entrySite project place path target).name] = "vendor" :: Text.split '/' path := by
  rw [entrySite, List.cons_append, List.dropLast_concat_getLast]

theorem place_entrySite (project : FilePath) (place : List String) (path : String)
    (target : FilePath) : (entrySite project place path target).place =
      place ++ ["vendor"] ++ Text.split '/' path := by
  rw [Site.place, List.append_assoc, names_entrySite, List.append_assoc]
  rfl

theorem isClear_entrySite {paths : List String} {path : String}
    (hproject : t.LeadsWithin links project place)
    (hpaths : ArePlaceable t (place ++ ["vendor"]) paths) (hpath : path ∈ paths) :
    (entrySite project place path target).IsClear t where
  reached := by
    obtain ⟨links', hle, hfollows⟩ := hproject.exists_follows
    exact ⟨links', hle.trans hproject.allowed, hfollows⟩
  below := by
    rw [names_entrySite]
    exact (isBelow_directoryOf hproject.text_ne).append
      (FilePath.isBelow_join path (text_directoryOf_ne hproject.text_ne) (hpaths.ordinary path hpath))
  free := by
    intro way hway target'
    rcases List.prefix_cons_iff.mp hway with rfl | ⟨below, rfl, hbelow⟩
    · change t.node? (place ++ []) ≠ _
      rw [List.append_nil, hasDirectory_iff.mp hproject.hasDirectory]
      simp
    · change t.node? (place ++ "vendor" :: below) ≠ _
      simpa using hpaths.free path hpath below hbelow target'

private theorem isClear_memberSite (hproject : t.LeadsWithin links project place) :
    (memberSite project place target).IsClear t where
  reached := by
    obtain ⟨links', hle, hfollows⟩ := hproject.exists_follows
    exact ⟨links', hle.trans hproject.allowed, hfollows⟩
  below := isBelow_directoryOf hproject.text_ne
  free := by
    intro way hway target'
    rw [List.prefix_nil.mp hway, List.append_nil]
    change t.node? place ≠ _
    rw [hasDirectory_iff.mp hproject.hasDirectory]
    simp

theorem ne_none_of_hasDirectory (h : t.hasDirectory place = true) : t.node? place ≠ none := by
  rw [hasDirectory_iff.mp h]
  simp

theorem isOnWay_entrySite_iff {path : String} {other : List String} :
    (entrySite project place path target).IsOnWay other ↔ other = place ∨
      ∃ way, way <+: (Text.split '/' path).dropLast ∧ other = place ++ ["vendor"] ++ way := by
  constructor
  · rintro ⟨way, hway, rfl⟩
    rcases List.prefix_cons_iff.mp hway with rfl | ⟨below, rfl, hbelow⟩
    · exact .inl (List.append_nil _)
    · exact .inr ⟨below, hbelow, (List.append_cons _ _ _)⟩
  · rintro (rfl | ⟨way, hway, rfl⟩)
    · exact ⟨[], List.nil_prefix, (List.append_nil _).symm⟩
    · exact ⟨"vendor" :: way, List.cons_prefix_cons.mpr ⟨rfl, hway⟩, (List.append_cons _ _ _).symm⟩

theorem node?_ne_none_of_isOnWay_entrySite {paths : List String} {path other : String}
    {target' : FilePath} (hpaths : ArePlaceable t (place ++ ["vendor"]) paths)
    (hpath : path ∈ paths) (hother : other ∈ paths) (hplace : t.hasDirectory place = true)
    (hway : (entrySite project place other target').IsOnWay
      (entrySite project place path target).place) :
    t.node? (entrySite project place path target).place ≠ none := by
  rcases isOnWay_entrySite_iff.mp hway with heq | ⟨way, hbefore, heq⟩
  · rw [heq]
    exact ne_none_of_hasDirectory hplace
  rw [place_entrySite] at heq ⊢
  obtain rfl := List.append_cancel_left heq
  by_cases hsame : path = other
  · have hlength := hbefore.length_le
    have hpos := List.length_pos_iff.mpr (Text.split_ne_nil '/' path)
    rw [← hsame, List.length_dropLast] at hlength
    omega
  · exact ne_none_of_hasDirectory
      (hpaths.apart path hpath other hother hsame (hbefore.trans (List.dropLast_prefix _)))

theorem inside_of_brings {path : String} {new : List String} {n : FileNode}
    (hplace : t.hasDirectory place = true) (hnone : t.node? new = none)
    (h : (entrySite project place path target).Brings new n) : place ++ ["vendor"] <+: new := by
  cases h with
  | directory hway =>
      rcases isOnWay_entrySite_iff.mp hway with rfl | ⟨way, -, rfl⟩
      · exact absurd hnone (ne_none_of_hasDirectory hplace)
      · exact List.prefix_append _ _
  | link => exact ⟨_, (place_entrySite project place path target).symm⟩

/-! ### The links of a project -/

/-- What is left of an attempt to link local projects: the failures are those of its links, each link
leads to its project, unless its failure is reported, and nothing is new but in the vendor
directory. -/
structure LinksProjects (t : FileTree) (project : FilePath) (links : Nat) (place : List String)
    (entries : Table String FilePath) (result : List VendorFailure × FileTree) : Prop where
  reports : Reports (entryLinks project entries) t result.1
  leads : ∀ path directory more target, entries.get? path = some directory →
    t.LeadsWithin more directory target → links + more < linkLimit →
    (directory.isAbsolute = project.isAbsolute → t.PartsAt project directory place) →
    IsUnreported (entryLinks project entries) t ((directoryOf project).join ⟨path⟩) directory →
    result.2.lookup ((directoryOf project).join ⟨path⟩) = .ok (target, .directory)
  inside : t.Gains result.2 fun new _ => place ++ ["vendor"] <+: new

theorem linksProjects_run {entries : Table String FilePath}
    (hproject : t.LeadsWithin links project place)
    (hpaths : ArePlaceable t (place ++ ["vendor"]) entries.keys) :
    LinksProjects t project links place entries ((linkProjects project entries).run t) := by
  have hclear : ∀ x ∈ entries.entries, (entrySite project place x.1 x.2).IsClear t :=
    fun x hx => isClear_entrySite hproject hpaths (List.mem_map_of_mem hx)
  have hapart : AreApart t (entries.entries.map fun x => entrySite project place x.1 x.2) := by
    intro x hx y hy hway
    obtain ⟨a, ha, rfl⟩ := List.mem_map.mp hx
    obtain ⟨b, hb, rfl⟩ := List.mem_map.mp hy
    exact node?_ne_none_of_isOnWay_entrySite hpaths (List.mem_map_of_mem ha)
      (List.mem_map_of_mem hb) hproject.hasDirectory hway
  have hends : (entries.entries.map fun x => entrySite project place x.1 x.2).map Site.ends =
      entryLinks project entries := by
    rw [List.map_map]
    rfl
  obtain ⟨hgains, hlinked⟩ := run_linkAll_sites (List.forall_mem_map.mpr hclear) hapart
  rw [hends] at hgains hlinked
  refine ⟨reports_run_linkAll _ t, ?_, ?_⟩
  · intro path directory more target hentry htarget hlimit hparts hunreported
    have hmem := Table.get?_eq_some_iff.mp hentry
    obtain ⟨links', hle, hfollows⟩ := htarget.exists_follows
    exact (hlinked _ (List.mem_map_of_mem hmem) hunreported).lookup hgains.isWithin (hclear _ hmem)
      hproject (hfollows.of_isWithin hgains.isWithin) (by omega) hparts
  · refine hgains.mono fun new n hnone hnew => ?_
    obtain ⟨x, hx, hbrings⟩ := hnew
    obtain ⟨y, -, rfl⟩ := List.mem_map.mp hx
    exact inside_of_brings hproject.hasDirectory hnone hbrings

/-! ### The links of a workspace -/

variable {members : List WorkspaceMember} {spots : WorkspaceMember → List String}
  {reaches : WorkspaceMember → Nat}

/-- Members of a workspace with existing directories, whose names can have a link each in the vendor
directory, and none of which has the vendor directory, or one on the way to such a link, for a
vendor directory of its own, unless a directory stands there. -/
structure AreMembers (t : FileTree) (workspace : FilePath) (place : List String)
    (members : List WorkspaceMember) (reaches : WorkspaceMember → Nat)
    (spots : WorkspaceMember → List String) : Prop where
  reached : ∀ m ∈ members, t.LeadsWithin (reaches m) (workspace.join m.path) (spots m)
  placeable : ArePlaceable t (place ++ ["vendor"]) (members.map (·.name))
  apart : ∀ m ∈ members, ∀ other ∈ members, ∀ way,
    way <+: (Text.split '/' other.name).dropLast →
    spots m ++ ["vendor"] = place ++ ["vendor"] ++ way →
    t.hasDirectory (spots m ++ ["vendor"]) = true

/-- What is left of an attempt to link the members of a workspace: the failures are those of its links,
the vendor directory of each member leads to that of the workspace, if there is one, and each entry
of that one leads to its member, unless the failure of the link is reported; and nothing is new but
these links and what is in the vendor directory of the workspace. -/
structure LinksMembers (t : FileTree) (workspace : FilePath) (links : Nat) (place : List String)
    (members : List WorkspaceMember) (reaches : WorkspaceMember → Nat)
    (spots : WorkspaceMember → List String) (result : List VendorFailure × FileTree) : Prop where
  reports : Reports (memberLinks workspace members) t result.1
  leadsUp : ∀ m ∈ members, links + reaches m < linkLimit →
    ((workspace.join m.path).isAbsolute = workspace.isAbsolute →
      t.PartsAt (workspace.join m.path) (directoryOf workspace) (spots m)) →
    IsUnreported (memberLinks workspace members) t (directoryOf (workspace.join m.path))
      (directoryOf workspace) →
    result.2.hasDirectory (place ++ ["vendor"]) = true →
    result.2.lookup (directoryOf (workspace.join m.path)) = .ok (place ++ ["vendor"], .directory)
  leadsDown : ∀ m ∈ members, links + reaches m < linkLimit →
    ((workspace.join m.path).isAbsolute = workspace.isAbsolute →
      t.PartsAt workspace (workspace.join m.path) place) →
    IsUnreported (memberLinks workspace members) t ((directoryOf workspace).join ⟨m.name⟩)
      (workspace.join m.path) →
    result.2.hasDirectory (place ++ ["vendor"]) = true ∧
      result.2.lookup ((directoryOf workspace).join ⟨m.name⟩) = .ok (spots m, .directory)
  inside : t.Gains result.2 fun new n => place ++ ["vendor"] <+: new ∨
    ∃ m ∈ members, new = spots m ++ ["vendor"] ∧ ∃ target, n = .link target

/-- The two links of a member. -/
def memberSites (workspace : FilePath) (place spot : List String) (m : WorkspaceMember) :
    List Site :=
  [memberSite (workspace.join m.path) spot (directoryOf workspace),
    entrySite workspace place m.name (workspace.join m.path)]

theorem isOnWay_memberSite_iff {other : List String} :
    (memberSite project place target).IsOnWay other ↔ other = place := by
  constructor
  · rintro ⟨way, hway, rfl⟩
    rw [List.prefix_nil.mp hway, List.append_nil]
    rfl
  · rintro rfl
    exact ⟨[], List.nil_prefix, (List.append_nil _).symm⟩

theorem place_memberSite : (memberSite project place target).place = place ++ ["vendor"] := by
  rw [Site.place, memberSite, List.append_nil]

private theorem areApart_memberSites (hworkspace : t.LeadsWithin links workspace place)
    (h : AreMembers t workspace place members reaches spots) :
    AreApart t (members.flatMap fun m => memberSites workspace place (spots m) m) := by
  intro x hx y hy hway
  obtain ⟨m, hm, hx⟩ := List.mem_flatMap.mp hx
  obtain ⟨other, hother, hy⟩ := List.mem_flatMap.mp hy
  have hspot := (h.reached other hother).hasDirectory
  simp only [memberSites, List.mem_cons, List.not_mem_nil, or_false] at hx hy
  rcases hy with rfl | rfl
  · rw [isOnWay_memberSite_iff.mp hway]
    exact ne_none_of_hasDirectory hspot
  rcases hx with rfl | rfl
  · rcases isOnWay_entrySite_iff.mp hway with heq | ⟨way, hbefore, heq⟩
    · rw [heq]
      exact ne_none_of_hasDirectory hworkspace.hasDirectory
    · rw [place_memberSite] at heq ⊢
      exact ne_none_of_hasDirectory (h.apart m hm other hother way hbefore heq)
  · exact node?_ne_none_of_isOnWay_entrySite h.placeable (List.mem_map_of_mem hm)
      (List.mem_map_of_mem hother) hworkspace.hasDirectory hway

private theorem inside_of_brings_member {x : Site} {spot new : List String} {m : WorkspaceMember}
    {n : FileNode} (hx : x ∈ memberSites workspace place spot m)
    (hplace : t.hasDirectory place = true) (hspot : t.hasDirectory spot = true)
    (hnone : t.node? new = none) (h : x.Brings new n) :
    place ++ ["vendor"] <+: new ∨ new = spot ++ ["vendor"] ∧ ∃ target, n = .link target := by
  simp only [memberSites, List.mem_cons, List.not_mem_nil, or_false] at hx
  rcases hx with rfl | rfl
  · cases h with
    | directory hway =>
        rw [isOnWay_memberSite_iff.mp hway] at hnone
        exact absurd hnone (ne_none_of_hasDirectory hspot)
    | link target => exact .inr ⟨place_memberSite, target, rfl⟩
  · exact .inl (inside_of_brings hplace hnone h)

private theorem isClear_memberSites (hworkspace : t.LeadsWithin links workspace place)
    (h : AreMembers t workspace place members reaches spots) {m : WorkspaceMember}
    (hm : m ∈ members) : ∀ x ∈ memberSites workspace place (spots m) m, x.IsClear t := by
  refine List.forall_mem_cons.mpr ⟨?_, List.forall_mem_singleton.mpr ?_⟩
  · exact isClear_memberSite (h.reached m hm)
  · exact isClear_entrySite hworkspace h.placeable (List.mem_map_of_mem hm)

theorem linksMembers_run (hworkspace : t.LeadsWithin links workspace place)
    (h : AreMembers t workspace place members reaches spots) :
    LinksMembers t workspace links place members reaches spots
      ((linkMembers workspace members).run t) := by
  have hends : (members.flatMap fun m => memberSites workspace place (spots m) m).map Site.ends =
      memberLinks workspace members := by
    rw [List.map_flatMap]
    simp only [memberSites, List.map_cons, List.map_nil, Site.ends, memberSite, entrySite,
      memberLinks]
  obtain ⟨hgains, hlinked⟩ :=
    run_linkAll_sites (List.forall_mem_flatMap.mpr fun _ hm => isClear_memberSites hworkspace h hm)
      (areApart_memberSites hworkspace h)
  rw [hends] at hgains hlinked
  have hwithin := hgains.isWithin
  obtain ⟨links', hle, hfollows⟩ := hworkspace.exists_follows
  have hup : ∀ m ∈ members,
      memberSite (workspace.join m.path) (spots m) (directoryOf workspace) ∈
        memberSites workspace place (spots m) m := fun _ _ => List.mem_cons_self
  have hdown : ∀ m ∈ members, entrySite workspace place m.name (workspace.join m.path) ∈
      memberSites workspace place (spots m) m :=
    fun _ _ => List.mem_cons_of_mem _ List.mem_cons_self
  have hlinkedDown : ∀ m ∈ members,
      IsUnreported (memberLinks workspace members) t ((directoryOf workspace).join ⟨m.name⟩)
        (workspace.join m.path) →
      (entrySite workspace place m.name (workspace.join m.path)).IsLinked
        ((linkAll (memberLinks workspace members)).run t).2 := by
    intro m hm hunreported
    refine hlinked _ (List.mem_flatMap.mpr ⟨m, hm, hdown m hm⟩) ?_
    rwa [link_entrySite]
  refine ⟨reports_run_linkAll _ t, fun m hm hlimit hparts hunreported hvendor => ?_,
    fun m hm hlimit hparts hunreported => ⟨?_, ?_⟩, ?_⟩
  · have htarget : ((linkMembers workspace members).run t).2.Follows links' [] (directoryOf workspace).steps (place ++ ["vendor"]) := by
      rw [(isBelow_directoryOf hworkspace.text_ne).steps]
      exact (hfollows.of_isWithin hwithin).append
        (.down (hwithin.hasDirectory hworkspace.hasDirectory) (by decide) (.here hvendor))
    rw [← link_memberSite (workspace.join m.path) (spots m) (directoryOf workspace)]
      at hunreported ⊢
    have hmade := hlinked _ (List.mem_flatMap.mpr ⟨m, hm, hup m hm⟩) hunreported
    refine hmade.lookup hwithin (isClear_memberSites hworkspace h hm _ (hup m hm))
      (h.reached m hm) htarget (by omega) fun habsolute => hparts (habsolute.symm.trans ?_)
    exact FilePath.isAbsolute_join hworkspace.text_ne (by decide)
  · exact (hlinkedDown m hm hunreported).descends ["vendor"]
      (List.cons_prefix_cons.mpr ⟨rfl, List.nil_prefix⟩)
  · obtain ⟨links'', hle', htarget⟩ := (h.reached m hm).exists_follows
    rw [← link_entrySite workspace place m.name (workspace.join m.path)]
    exact (hlinkedDown m hm hunreported).lookup hwithin
      (isClear_memberSites hworkspace h hm _ (hdown m hm)) hworkspace
      (htarget.of_isWithin hwithin) (by omega) hparts
  · refine hgains.mono fun new n hnone hnew => ?_
    obtain ⟨x, hx, hbrings⟩ := hnew
    obtain ⟨m, hm, hx⟩ := List.mem_flatMap.mp hx
    exact (inside_of_brings_member hx hworkspace.hasDirectory (h.reached m hm).hasDirectory hnone
      hbrings).imp_right fun hnew => ⟨m, hm, hnew⟩

/-! ### Projects and workspaces -/

/-- Links of vendor directories lead where they should and nothing else is made, if no link is met on
the way to one and none is on the way to another, and each is told by a path that goes straight down
from where it parts from the path of its target. -/
theorem links_of_run {directory : FilePath} (hdirectory : t.LeadsWithin links directory place) :
    (∀ entries : Table String FilePath, ArePlaceable t (place ++ ["vendor"]) entries.keys →
      LinksProjects t directory links place entries ((linkProjects directory entries).run t)) ∧
    ∀ members reaches spots, AreMembers t directory place members reaches spots →
      LinksMembers t directory links place members reaches spots
        ((linkMembers directory members).run t) :=
  ⟨fun _ hpaths => linksProjects_run hdirectory hpaths,
    fun _ _ _ hmembers => linksMembers_run hdirectory hmembers⟩

/-- A workspace with a library beside its member. -/
def sampleTree : FileTree :=
  ⟨.ofList [(["ws"], .directory), (["ws", "api"], .directory), (["ws", "lib"], .directory),
    (["ws", "vendor"], .directory)]⟩

theorem descends_sampleTree : sampleTree.Descends [] ["ws", "api"] ∧
    sampleTree.Descends [] ["ws", "lib"] ∧ sampleTree.Descends [] ["ws", "vendor"] := by
  simp only [descends_cons_iff, descends_nil_iff]
  decide

private theorem arePlaceable_singleton {directory : List String} {name : String}
    (hdirectory : t.hasDirectory directory = true) (hname : IsOrdinary name)
    (hsplit : Text.split '/' name = [name]) : ArePlaceable t directory [name] where
  ordinary := by
    simpa [hsplit] using hname
  free := by
    intro path hpath way hway target
    rw [List.mem_singleton.mp hpath, hsplit] at hway
    rw [List.prefix_nil.mp hway, List.append_nil, hasDirectory_iff.mp hdirectory]
    simp
  apart := by
    intro path hpath other hother hne
    exact absurd ((List.mem_singleton.mp hpath).trans (List.mem_singleton.mp hother).symm) hne

theorem run_linkInto_of_descends (parent : FilePath) {relative : FilePath} {names : List String}
    {name : String}
    (hparent : link.parent? = some parent) (hrelative : target.relativeTo parent = some relative)
    (hdescends : t.Descends [] names)
    (hnode : t.node? (names ++ [name]) = none)
    (htexts : pathError? parent = none ∧ segmentsThrough parent = names ∧ pathError? link = none ∧
      segmentsOf link = names ++ [name] ∧ asDirectory link = false ∧ pathError? relative = none ∧
      ∀ s ∈ names ++ [name], IsName s) :
    (linkInto link target).run.run t = (.ok (), t.insert (names ++ [name]) (.link relative)) := by
  obtain ⟨hpath, hsegments, hlink, hentry, hname, hrelative', hnames⟩ := htexts
  have hnames' : ∀ s ∈ names, IsName s := fun s hs => hnames s (List.mem_append_left _ hs)
  have hleads := leadsWithin_of_descends hpath hsegments hnames' hdescends
  refine run_linkInto_of_free hparent ?_ hrelative ?_ hname hrelative'
  · rw [pathExists, hleads.lookup]
    rfl
  · exact resolve_entry_of_follows hlink (Nat.zero_le _) hentry (hdescends.follows hnames')
      (hnames name (by simp)) hnode

private theorem run_linkProjects_sampleTree :
    ((linkProjects ⟨"ws"⟩ (.ofList [("lib", ⟨"ws/lib"⟩)])).run sampleTree).1 = [] := by
  have hrun : (linkInto ⟨"ws/vendor/lib"⟩ ⟨"ws/lib"⟩).run.run sampleTree =
      (.ok (), sampleTree.insert ["ws", "vendor", "lib"] (.link ⟨"../lib"⟩)) :=
    run_linkInto_of_descends ⟨"ws/vendor"⟩ (by decide) (by decide)
      descends_sampleTree.2.2 (by decide) (by decide)
  have hlist : linkProjects ⟨"ws"⟩ (.ofList [("lib", ⟨"ws/lib"⟩)]) =
      linkAll [(⟨"ws/vendor/lib"⟩, ⟨"ws/lib"⟩)] := congrArg linkAll (by decide)
  rw [hlist, run_linkAll_cons, hrun]
  rfl

private theorem run_linkMembers_sampleTree :
    ((linkMembers ⟨"ws"⟩ [⟨"api", ⟨"api"⟩⟩]).run sampleTree).1 = [] := by
  have hup : (linkInto ⟨"ws/api/vendor"⟩ ⟨"ws/vendor"⟩).run.run sampleTree =
      (.ok (), sampleTree.insert ["ws", "api", "vendor"] (.link ⟨"../vendor"⟩)) :=
    run_linkInto_of_descends ⟨"ws/api"⟩ (by decide) (by decide)
      descends_sampleTree.1 (by decide) (by decide)
  have hwithin : sampleTree.IsWithin
      (sampleTree.insert ["ws", "api", "vendor"] (.link ⟨"../vendor"⟩)) :=
    isWithin_insert (by decide)
  have hdown : (linkInto ⟨"ws/vendor/api"⟩ ⟨"ws/api"⟩).run.run
      (sampleTree.insert ["ws", "api", "vendor"] (.link ⟨"../vendor"⟩)) =
      (.ok (), (sampleTree.insert ["ws", "api", "vendor"] (.link ⟨"../vendor"⟩)).insert
        ["ws", "vendor", "api"] (.link ⟨"../api"⟩)) :=
    run_linkInto_of_descends ⟨"ws/vendor"⟩ (by decide) (by decide)
      (descends_sampleTree.2.2.of_isWithin hwithin) (by decide) (by decide)
  have hlist : linkMembers ⟨"ws"⟩ [⟨"api", ⟨"api"⟩⟩] =
      linkAll [(⟨"ws/api/vendor"⟩, ⟨"ws/vendor"⟩), (⟨"ws/vendor/api"⟩, ⟨"ws/api"⟩)] :=
    congrArg linkAll (by decide)
  rw [hlist, run_linkAll_cons, hup]
  dsimp only
  rw [run_linkAll_cons, hdown]
  rfl

theorem leadsWithin_sampleTree : sampleTree.LeadsWithin 0 ⟨"ws"⟩ ["ws"] ∧
    sampleTree.LeadsWithin 0 ⟨"ws/api"⟩ ["ws", "api"] ∧
    sampleTree.LeadsWithin 0 ⟨"ws/lib"⟩ ["ws", "lib"] := by
  obtain ⟨hapi, hlib, -⟩ := descends_sampleTree
  refine ⟨?_, ?_, ?_⟩
  · exact leadsWithin_of_descends (by decide) (by decide) (by decide)
      fun way hway => hapi way (hway.trans ⟨["api"], rfl⟩)
  · exact leadsWithin_of_descends (by decide) (by decide) (by decide) hapi
  · exact leadsWithin_of_descends (by decide) (by decide) (by decide) hlib

theorem arePlaceable_sampleTree {name : String} (hname : IsOrdinary name)
    (hsplit : Text.split '/' name = [name]) :
    ArePlaceable sampleTree (["ws"] ++ ["vendor"]) [name] :=
  arePlaceable_singleton descends_sampleTree.2.2.hasDirectory_right hname hsplit

private theorem areMembers_sampleTree : AreMembers sampleTree ⟨"ws"⟩ ["ws"] [⟨"api", ⟨"api"⟩⟩]
    (fun _ => 0)
    (fun _ => ["ws", "api"]) where
  reached := List.forall_mem_singleton.mpr leadsWithin_sampleTree.2.1
  placeable := arePlaceable_sampleTree (by decide) (by decide)
  apart := by simp

private theorem partsAt_sampleTree {base other : FilePath} {names : List String}
    (hbase : base.components = names.map .name) (hdescends : sampleTree.Descends [] names) :
    sampleTree.PartsAt base other names :=
  ⟨[], _, [], hbase, List.nil_prefix, walk_nil, rfl, hdescends⟩

/-- A project beside a library, and a workspace with a member: all links are made, and lead there. -/
theorem links_sampleTree :
    ((linkProjects ⟨"ws"⟩ (.ofList [("lib", ⟨"ws/lib"⟩)])).run sampleTree).2.lookup
      ⟨"ws/vendor/lib"⟩ = .ok (["ws", "lib"], .directory) ∧
    ((linkMembers ⟨"ws"⟩ [⟨"api", ⟨"api"⟩⟩]).run sampleTree).2.lookup ⟨"ws/api/vendor"⟩ =
      .ok (["ws", "vendor"], .directory) ∧
    ((linkMembers ⟨"ws"⟩ [⟨"api", ⟨"api"⟩⟩]).run sampleTree).2.lookup ⟨"ws/vendor/api"⟩ =
      .ok (["ws", "api"], .directory) := by
  obtain ⟨hws, -, hlib⟩ := leadsWithin_sampleTree
  have hapi := descends_sampleTree.1
  have hroot : sampleTree.Descends [] ["ws"] := fun way hway => hapi way (hway.trans ⟨["api"], rfl⟩)
  obtain ⟨hprojects, hmembers⟩ := links_of_run hws
  have hproject := hprojects (.ofList [("lib", ⟨"ws/lib"⟩)])
    (arePlaceable_sampleTree (by decide) (by decide))
  have hworkspace := hmembers _ _ _ areMembers_sampleTree
  obtain ⟨hdirectory, hdown⟩ := hworkspace.leadsDown ⟨"api", ⟨"api"⟩⟩ (by simp) (by decide)
    (fun _ => partsAt_sampleTree (by decide) hroot)
    (isUnreported_of_run_eq_nil run_linkMembers_sampleTree _ _)
  have hlibLink : (directoryOf ⟨"ws"⟩).join ⟨"lib"⟩ = ⟨"ws/vendor/lib"⟩ := by decide
  have hapiLink : (directoryOf ⟨"ws"⟩).join ⟨"api"⟩ = ⟨"ws/vendor/api"⟩ := by decide
  have hupLink : directoryOf ((⟨"ws"⟩ : FilePath).join ⟨"api"⟩) = ⟨"ws/api/vendor"⟩ := by decide
  rw [← hlibLink, ← hapiLink, ← hupLink]
  refine ⟨?_, ?_, hdown⟩
  · exact hproject.leads "lib" ⟨"ws/lib"⟩ 0 ["ws", "lib"] (by decide) hlib (by decide)
      (fun _ => partsAt_sampleTree (by decide) hroot)
      (isUnreported_of_run_eq_nil run_linkProjects_sampleTree _ _)
  · exact hworkspace.leadsUp ⟨"api", ⟨"api"⟩⟩ (by simp) (by decide)
      (fun _ => partsAt_sampleTree (by decide) hapi)
      (isUnreported_of_run_eq_nil run_linkMembers_sampleTree _ _) hdirectory

/-! ### A project below another one -/

/-- A project with two local projects. -/
def nestedTree : FileTree :=
  ⟨.ofList [(["p"], .directory), (["p", "a"], .directory), (["p", "b"], .directory),
    (["p", "vendor"], .directory)]⟩

def nestedEntries : Table String FilePath := .ofList [("a", ⟨"p/a"⟩), ("a/b", ⟨"p/b"⟩)]

theorem descends_nestedTree : nestedTree.Descends [] ["p", "a"] ∧
    nestedTree.Descends [] ["p", "b"] ∧ nestedTree.Descends [] ["p", "vendor"] := by
  simp only [descends_cons_iff, descends_nil_iff]
  decide

/-- The tree with the link to the first project. -/
def onceLinked : FileTree := nestedTree.insert ["p", "vendor", "a"] (.link ⟨"../a"⟩)

/-- The tree with a link in the first project as well. -/
def twiceLinked : FileTree := onceLinked.insert ["p", "a", "b"] (.link ⟨"../../b"⟩)

theorem nestedTree_isWithin : nestedTree.IsWithin onceLinked :=
  isWithin_insert (by decide)

private theorem onceLinked_isWithin : onceLinked.IsWithin twiceLinked :=
  isWithin_insert (by decide)

theorem follows_onceLinked : onceLinked.Follows 1 [] ["p", "vendor", "a"] ["p", "a"] := by
  have hvendor := descends_nestedTree.2.2.of_isWithin nestedTree_isWithin
  have ha := (descends_nestedTree.1.of_isWithin nestedTree_isWithin).hasDirectory_right
  have hp := hvendor ["p"] ⟨["vendor"], rfl⟩
  have hback : onceLinked.Follows 0 ["p", "vendor"] ["..", "a"] ["p", "a"] :=
    .up hvendor.hasDirectory_right (.down hp (by decide) (.here ha))
  have hnode : onceLinked.node? ["p", "vendor", "a"] = some (.link ⟨"../a"⟩) := by decide
  have hlink : onceLinked.Follows 1 ["p", "vendor"] ["a"] ["p", "a"] :=
    .link hvendor.hasDirectory_right (by decide) hnode hback
  exact (hvendor.follows (by decide)).append hlink

private theorem run_linkProjects_nested :
    (linkProjects ⟨"p"⟩ nestedEntries).run nestedTree = ([], twiceLinked) := by
  have hfirst : (linkInto ⟨"p/vendor/a"⟩ ⟨"p/a"⟩).run.run nestedTree = (.ok (), onceLinked) :=
    run_linkInto_of_descends ⟨"p/vendor"⟩ (by decide) (by decide)
      descends_nestedTree.2.2 (by decide) (by decide)
  have hsecond : (linkInto ⟨"p/vendor/a/b"⟩ ⟨"p/b"⟩).run.run onceLinked = (.ok (), twiceLinked) := by
    have hparent : (⟨"p/vendor/a/b"⟩ : FilePath).parent? = some ⟨"p/vendor/a"⟩ := by
      decide
    have hsteps : (⟨"p/vendor/a"⟩ : FilePath).steps = ["p", "vendor", "a"] := by decide
    have hexists : onceLinked.pathExists ⟨"p/vendor/a"⟩ = true := by
      rw [pathExists, lookup_of_follows (by decide) (hsteps ▸ follows_onceLinked) (by decide)]
      rfl
    have hfree : onceLinked.resolve .entry ⟨"p/vendor/a/b"⟩ = .ok (.free ["p", "a"] "b") :=
      resolve_entry_of_follows (by decide) (by decide) (by decide)
        follows_onceLinked (by decide) (by decide)
    exact run_linkInto_of_free hparent hexists (by decide) hfree (by decide)
      (by decide)
  have hlist : linkProjects ⟨"p"⟩ nestedEntries =
      linkAll [(⟨"p/vendor/a"⟩, ⟨"p/a"⟩), (⟨"p/vendor/a/b"⟩, ⟨"p/b"⟩)] :=
    congrArg linkAll (by decide)
  rw [hlist, run_linkAll_cons, hfirst]
  dsimp only
  rw [run_linkAll_cons, hsecond]
  rfl

private theorem lookup_twiceLinked : twiceLinked.lookup ⟨"p/vendor/a/b"⟩ = .error .notFound := by
  have hwithin := nestedTree_isWithin.trans onceLinked_isWithin
  have ha := descends_nestedTree.1.of_isWithin hwithin
  have hwalk : twiceLinked.walk .target linkLimit [] ["p", "vendor", "a", "b"] =
      .ok (.free [] "b") := by
    have hsegments : segmentsThrough ⟨"../../b"⟩ = ["..", "..", "b"] := by decide
    have hfirst : twiceLinked.walk .target (1 + 39) [] (["p", "vendor", "a"] ++ ["b"]) =
        twiceLinked.walk .target 39 ["p", "a"] ["b"] :=
      (follows_onceLinked.of_isWithin onceLinked_isWithin).walk_append 39 (.inl rfl)
    have hnode : twiceLinked.node? (["p", "a"] ++ ["b"]) = some (.link ⟨"../../b"⟩) := by
      decide
    have hlink : twiceLinked.walk .target (38 + 1) ["p", "a"] ["b"] =
        twiceLinked.walk .target 38 ["p", "a"] (segmentsThrough ⟨"../../b"⟩ ++ []) :=
      walk_link_cons ha.hasDirectory_right (by decide) hnode
    -- Two steps up from the first project lead out of the one that has both.
    have hback : twiceLinked.walk .target (0 + 38) ["p", "a"] (["..", ".."] ++ ["b"]) =
        twiceLinked.walk .target 38 [] ["b"] := ha.follows_up.walk_append 38 (.inl rfl)
    have hfree : twiceLinked.walk .target 38 [] ["b"] = .ok (.free [] "b") :=
      walk_free (hasDirectory_root _) (by decide) (by decide)
    rw [hsegments] at hlink
    exact hfirst.trans (hlink.trans (hback.trans hfree))
  have hresolve : twiceLinked.resolve .target ⟨"p/vendor/a/b"⟩ = .ok (.free [] "b") := by
    rw [resolve_eq_walk (by decide)]
    exact hwalk
  rw [lookup, hresolve]
  rfl

private theorem lookup_nestedTree : nestedTree.lookup ⟨"p"⟩ = .ok (["p"], .directory) ∧
    nestedTree.lookup ⟨"p/a"⟩ = .ok (["p", "a"], .directory) ∧
    nestedTree.lookup ⟨"p/b"⟩ = .ok (["p", "b"], .directory) := by
  obtain ⟨ha, hb, -⟩ := descends_nestedTree
  have hlookup : ∀ p names, pathError? p = none ∧ segmentsThrough p = names ∧
      (∀ s ∈ names, IsName s) → nestedTree.Descends [] names →
      nestedTree.lookup p = .ok (names, .directory) := fun p names hp hdescends =>
    (leadsWithin_of_descends hp.1 hp.2.1 hp.2.2 hdescends).lookup
  have hp : nestedTree.Descends [] ["p"] := fun way hway => ha way (hway.trans ⟨["a"], rfl⟩)
  exact ⟨hlookup _ _ (by decide) hp, hlookup _ _ (by decide) ha, hlookup _ _ (by decide) hb⟩

/-- A link that is made below another one lands in the project to which that one leads, and does not
lead to its own. -/
theorem not_links_of_run :
    (¬ ∀ (t : FileTree) (project : FilePath) (place : List String)
      (entries : Table String FilePath), t.lookup project = .ok (place, .directory) →
      ∀ path directory target, entries.get? path = some directory →
        t.lookup directory = .ok (target, .directory) →
        IsUnreported (entryLinks project entries) t ((directoryOf project).join ⟨path⟩) directory →
        ((linkProjects project entries).run t).2.lookup ((directoryOf project).join ⟨path⟩) =
          .ok (target, .directory)) ∧
    ¬ ∀ (t : FileTree) (project : FilePath) (place : List String)
      (entries : Table String FilePath), t.lookup project = .ok (place, .directory) →
      (∀ path directory, entries.get? path = some directory →
        ∃ target, t.lookup directory = .ok (target, .directory)) →
      t.Gains ((linkProjects project entries).run t).2 fun new _ => place ++ ["vendor"] <+: new := by
  obtain ⟨hp, hpa, hpb⟩ := lookup_nestedTree
  constructor
  · intro h
    have hleads := h nestedTree ⟨"p"⟩ ["p"] nestedEntries hp "a/b" ⟨"p/b"⟩ ["p", "b"]
      (by decide) hpb
    rw [run_linkProjects_nested] at hleads
    have hlink : (directoryOf ⟨"p"⟩).join ⟨"a/b"⟩ = ⟨"p/vendor/a/b"⟩ := by decide
    rw [hlink] at hleads
    have hnone : ((linkProjects ⟨"p"⟩ nestedEntries).run nestedTree).1 = [] := by
      rw [run_linkProjects_nested]
    have hfound := hleads (isUnreported_of_run_eq_nil hnone _ _)
    rw [lookup_twiceLinked] at hfound
    cases hfound
  · intro h
    have hgains := h nestedTree ⟨"p"⟩ ["p"] nestedEntries hp ?_
    · rw [run_linkProjects_nested] at hgains
      rcases hgains ["p", "a", "b"] with hsame | ⟨-, n, -, hinside⟩
      · exact absurd hsame (by decide)
      · exact absurd hinside (by decide)
    · intro path directory hentry
      have hmem := Table.mem_of_get?_ofList hentry
      simp only [List.mem_cons, List.not_mem_nil, or_false, Prod.mk.injEq] at hmem
      rcases hmem with ⟨-, rfl⟩ | ⟨-, rfl⟩
      · exact ⟨_, hpa⟩
      · exact ⟨_, hpb⟩

end Vendor

end DepSolver
