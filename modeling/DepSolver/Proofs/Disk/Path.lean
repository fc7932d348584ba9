import DepSolver.Disk.FileTree
import DepSolver.Proofs.Text

/-!
Paths as lists of components: how these change when paths are joined and cut, and which components a
path from one place to another has.
-/

namespace DepSolver

namespace Text

theorem splitAt_ne_nil (sep : Char) (l : List Char) : splitAt sep l ≠ [] := by
  cases l with
  | nil => simp [splitAt]
  | cons c rest =>
      rw [splitAt]
      split
      · simp
      · split <;> simp

theorem split_ne_nil (sep : Char) (s : String) : split sep s ≠ [] :=
  mt List.map_eq_nil_iff.mp (splitAt_ne_nil sep s.toList)

theorem splitAt_append_cons (sep : Char) (l rest : List Char) :
    splitAt sep (l ++ sep :: rest) = splitAt sep l ++ splitAt sep rest := by
  induction l with
  | nil => simp [splitAt]
  | cons c l ih =>
      rw [List.cons_append, splitAt, splitAt, ih]
      split
      · rfl
      · cases hpieces : splitAt sep l with
        | nil => exact absurd hpieces (splitAt_ne_nil sep l)
        | cons piece pieces => rfl

theorem split_append_slash (s rest : String) :
    split '/' (s ++ "/" ++ rest) = split '/' s ++ split '/' rest := by
  have hchars : (s ++ "/" ++ rest).toList = s.toList ++ '/' :: rest.toList := by
    simp [String.toList_append]
  rw [split, hchars, splitAt_append_cons, List.map_append]
  rfl

theorem split_eq_singleton {sep : Char} {s : String} (h : sep ∉ s.toList) : split sep s = [s] := by
  have hchars : ∀ l : List Char, sep ∉ l → splitAt sep l = [l] := by
    intro l hl
    induction l with
    | nil => rfl
    | cons c l ih =>
        rw [List.mem_cons, not_or] at hl
        rw [splitAt, if_neg (Ne.symm hl.1), ih hl.2]
  rw [split, hchars _ h]
  simp

theorem split_intercalate {l : List String} (hne : l ≠ []) (hl : ∀ s ∈ l, '/' ∉ s.toList) :
    split '/' ("/".intercalate l) = l := by
  induction l with
  | nil => exact absurd rfl hne
  | cons s rest ih =>
      obtain ⟨hs, hrest⟩ := List.forall_mem_cons.mp hl
      cases rest with
      | nil => rw [String.intercalate_singleton, split_eq_singleton hs]
      | cons next rest =>
          rw [String.intercalate_cons_cons, split_append_slash, split_eq_singleton hs,
            ih (List.cons_ne_nil _ _) hrest, List.singleton_append]

theorem not_mem_of_mem_split {sep : Char} {s piece : String} (h : piece ∈ split sep s) :
    sep ∉ piece.toList := by
  obtain ⟨chars, hchars, rfl⟩ := List.mem_map.mp h
  rw [String.toList_ofList]
  intro hsep
  exact (mem_of_mem_splitAt hchars hsep).2 rfl

theorem split_eq_singleton_empty {sep : Char} {s : String} (h : split sep s = [""]) :
    s = "" := by
  obtain ⟨piece, hsplit, hpiece⟩ := List.map_eq_singleton_iff.mp h
  obtain rfl : piece = [] := by simpa using hpiece
  cases hchars : s.toList with
  | nil => simpa using hchars
  | cons c rest =>
      rw [hchars, splitAt] at hsplit
      split at hsplit
      · exact absurd (List.cons.inj hsplit).2 (splitAt_ne_nil sep rest)
      · split at hsplit <;> cases hsplit

theorem exists_of_endsWith {ending s : String} (h : endsWith ending s = true) :
    ∃ before, s = before ++ ending := by
  obtain ⟨before, hbefore⟩ := Option.isSome_iff_exists.mp h
  refine ⟨.ofList before, String.toList_inj.mp ?_⟩
  rw [dropEnding?_eq_some_iff] at hbefore
  simp [hbefore]

end Text

namespace FilePath

variable {p q base target : FilePath} {segment : String} {segments names : List String}
  {c : Component}

/-! ### Components -/

theorem component?_ne_none (hempty : segment ≠ "") (hdot : segment ≠ ".") :
    component? segment ≠ none := by
  have hvoid : isVoid segment = false := by simp [isVoid, hempty, hdot]
  rw [component?, hvoid, if_neg (by simp)]
  split <;> simp

/-- A segment that is a name, and leads to what has this name. -/
def IsOrdinary (s : String) : Prop := s ∉ ["", ".", ".."]

instance (s : String) : Decidable (IsOrdinary s) := inferInstanceAs (Decidable (¬ _))

theorem IsOrdinary.component? (h : IsOrdinary segment) :
    FilePath.component? segment = some (.name segment) := by
  simp only [IsOrdinary, List.mem_cons, List.not_mem_nil, or_false, not_or] at h
  simp [FilePath.component?, isVoid, h]

theorem components_eq (p : FilePath) : p.components =
    (if p.parts.1 = "/" then [.root] else if p.parts.1 = "." then [.here] else []) ++
      p.parts.2.filterMap component? := rfl

/-- What the first piece of a path before a slash stands for. -/
def leading (segment : String) : List Component :=
  if segment = "" then [.root] else if segment = "." then [.here] else (component? segment).toList

theorem components_of_split (h : Text.split '/' p.text = segment :: segments)
    (hne : p.text ≠ "") : p.components = leading segment ++ segments.filterMap component? := by
  have hsegments : segment = "" → segments ≠ [] := by
    rintro rfl rfl
    exact hne (Text.split_eq_singleton_empty h)
  rw [leading]
  by_cases hempty : segment = ""
  · subst hempty
    simp [components, parts, h, hsegments rfl]
  by_cases hdot : segment = "."
  · subst hdot
    simp [components, parts, h, component?, isVoid]
  have hparts : p.parts = ("", segment :: segments) := by
    rw [parts, h]
    split
    · exact absurd (List.cons.inj ‹_›).1 hempty
    · exact absurd (List.cons.inj ‹_›).1 hdot
    · rfl
  rw [components, hparts, if_neg hempty, if_neg hdot]
  cases hc : component? segment <;> simp [hc]

theorem components_eq_nil_iff : p.components = [] ↔ p = ⟨""⟩ := by
  constructor
  · intro h
    by_contra hne
    obtain ⟨segment, segments, hsplit⟩ := List.exists_cons_of_ne_nil (Text.split_ne_nil '/' p.text)
    rw [components_of_split hsplit (fun htext => hne (congrArg FilePath.mk htext))] at h
    have hleading := (List.append_eq_nil_iff.mp h).1
    rw [leading] at hleading
    split at hleading
    · cases hleading
    split at hleading
    · cases hleading
    · rename_i hempty hdot
      exact component?_ne_none hempty hdot (by simpa using hleading)
  · rintro rfl
    decide

theorem component?_ne_root : component? segment ≠ some .root := by
  rw [component?]
  split
  · simp
  · split <;> simp

theorem root_not_mem_filterMap : Component.root ∉ segments.filterMap component? := by
  simp [List.mem_filterMap, component?_ne_root]

theorem isAbsolute_iff : p.isAbsolute = true ↔ p.components.head? = some .root := by
  rw [isAbsolute, decide_eq_true_eq, components_eq]
  by_cases hroot : p.parts.1 = "/"
  · simp [hroot]
  by_cases hhere : p.parts.1 = "."
  · simp [hhere]
  · simp only [if_neg hhere, hroot, false_iff]
    exact fun h => root_not_mem_filterMap (List.mem_of_mem_head? h)

theorem isAbsolute_congr (h : p.components = q.components) : p.isAbsolute = q.isAbsolute := by
  rw [Bool.eq_iff_iff, isAbsolute_iff, isAbsolute_iff, h]

theorem isAbsolute_of_split (h : Text.split '/' p.text = segment :: segments)
    (hne : segment ≠ "") : p.isAbsolute = false := by
  rw [isAbsolute, parts, h]
  split
  · exact absurd (List.cons.inj ‹_›).1 hne
  · rfl
  · rfl

theorem root_not_mem_tail_components : Component.root ∉ p.components.tail := by
  rw [components_eq]
  split
  · exact root_not_mem_filterMap
  split
  · exact root_not_mem_filterMap
  · exact fun h => root_not_mem_filterMap (List.mem_of_mem_tail h)

/-! ### Joining paths -/

theorem exists_split_join (hbase : base.text ≠ "") (hp : p.isAbsolute = false) :
    ∃ pieces, pieces ≠ [] ∧ Text.split '/' (base.join p).text = pieces ++ Text.split '/' p.text ∧
      (Text.split '/' base.text = pieces ∨ Text.split '/' base.text = pieces ++ [""]) := by
  rw [join, if_neg (by simp [hp, hbase])]
  split
  · rename_i hslash
    obtain ⟨before, hbefore⟩ := Text.exists_of_endsWith hslash
    refine ⟨Text.split '/' before, Text.split_ne_nil _ _, ?_, .inr ?_⟩
    · rw [hbefore, Text.split_append_slash]
    · rw [hbefore, ← String.append_empty (s := before ++ "/"), Text.split_append_slash]
      rfl
  · exact ⟨_, Text.split_ne_nil _ _, Text.split_append_slash _ _, .inl rfl⟩

theorem text_join_ne (hbase : base.text ≠ "") (hp : p.isAbsolute = false) :
    (base.join p).text ≠ "" := by
  rw [join, if_neg (by simp [hp, hbase])]
  split <;> simp [hbase]

theorem components_join (hbase : base.text ≠ "") (hp : p.isAbsolute = false) :
    (base.join p).components =
      base.components ++ (Text.split '/' p.text).filterMap component? := by
  obtain ⟨pieces, hne, hjoin, hpieces⟩ := exists_split_join hbase hp
  obtain ⟨segment, segments, rfl⟩ := List.exists_cons_of_ne_nil hne
  rw [List.cons_append] at hjoin
  rw [components_of_split hjoin (text_join_ne hbase hp), List.filterMap_append,
    ← List.append_assoc]
  refine congrArg (· ++ _) ?_
  rcases hpieces with hbase' | hbase'
  · rw [components_of_split hbase' hbase]
  · rw [List.cons_append] at hbase'
    rw [components_of_split hbase' hbase, List.filterMap_append]
    simp [component?, isVoid]

theorem asDirectory_join (hbase : base.text ≠ "") (hp : p.isAbsolute = false)
    (hlast : (Text.split '/' p.text).getLast? ≠ some "") :
    FileTree.asDirectory (base.join p) = false := by
  obtain ⟨pieces, -, hjoin, -⟩ := exists_split_join hbase hp
  by_contra hslash
  obtain ⟨before, hbefore⟩ := Text.exists_of_endsWith (Bool.of_not_eq_false hslash)
  rw [hbefore, ← String.append_empty (s := before ++ "/"), Text.split_append_slash] at hjoin
  refine hlast ?_
  rw [← List.getLast?_append_of_ne_nil pieces (Text.split_ne_nil _ _), ← hjoin]
  exact List.getLast?_append_of_ne_nil _ (by decide)

theorem segmentsOf_join (hbase : base.text ≠ "") (hp : p.isAbsolute = false) :
    FileTree.segmentsOf (base.join p) = FileTree.segmentsOf base ++ FileTree.segmentsOf p := by
  obtain ⟨pieces, -, hjoin, hpieces⟩ := exists_split_join hbase hp
  rw [FileTree.segmentsOf, FileTree.segmentsOf, FileTree.segmentsOf, hjoin, List.filter_append]
  refine congrArg (· ++ _) ?_
  rcases hpieces with h | h
  · rw [h]
  · rw [h, List.filter_append]
    simp

/-! ### Cutting paths -/

theorem filterMap_component?_of_isVoid (h : ∀ s ∈ segments, isVoid s = true) :
    segments.filterMap component? = [] := by
  rw [List.filterMap_eq_nil_iff]
  intro s hs
  rw [component?, if_pos (h s hs)]

theorem filterMap_split_intercalate (h : ∀ s ∈ segments, '/' ∉ s.toList) :
    (Text.split '/' ("/".intercalate segments)).filterMap component? =
      segments.filterMap component? := by
  cases segments with
  | nil => decide
  | cons segment segments => rw [Text.split_intercalate (List.cons_ne_nil _ _) h]

theorem components_ofParts_root (h : ∀ s ∈ segments, '/' ∉ s.toList) :
    (ofParts "/" segments).components = .root :: segments.filterMap component? := by
  have hsplit : Text.split '/' (ofParts "/" segments).text =
      "" :: Text.split '/' ("/".intercalate segments) := by
    rw [ofParts, ← String.empty_append (s := "/"), Text.split_append_slash]
    rfl
  rw [components_of_split hsplit (by simp [ofParts]), filterMap_split_intercalate h]
  rfl

theorem components_ofParts_here (h : ∀ s ∈ segments, '/' ∉ s.toList) :
    (ofParts "." ("" :: segments)).components = .here :: segments.filterMap component? := by
  cases segments with
  | nil => decide
  | cons segment segments =>
      have htext : (ofParts "." ("" :: segment :: segments)).text =
          "." ++ "/" ++ "/".intercalate (segment :: segments) := by
        rw [ofParts, String.intercalate_cons_cons, String.empty_append, String.append_assoc]
      have hsplit : Text.split '/' (ofParts "." ("" :: segment :: segments)).text =
          "." :: Text.split '/' ("/".intercalate (segment :: segments)) := by
        rw [htext, Text.split_append_slash]
        rfl
      rw [components_of_split hsplit (by simp [htext]), filterMap_split_intercalate h]
      rfl

theorem components_ofParts (hempty : segment ≠ "") (hdot : segment ≠ ".")
    (h : ∀ s ∈ segment :: segments, '/' ∉ s.toList) :
    (ofParts "" (segment :: segments)).components =
      (segment :: segments).filterMap component? := by
  have hsplit : Text.split '/' (ofParts "" (segment :: segments)).text = segment :: segments := by
    rw [ofParts, String.empty_append, Text.split_intercalate (List.cons_ne_nil _ _) h]
  have htext : (ofParts "" (segment :: segments)).text ≠ "" := by
    intro htext
    rw [htext] at hsplit
    exact hempty (List.cons.inj hsplit).1.symm
  rw [components_of_split hsplit htext, leading, if_neg hempty, if_neg hdot]
  cases hc : component? segment <;> simp [hc]

theorem parent?_eq_some (h : p.parent? = some q) :
    (∃ kept between last after, p.parts.2 = kept ++ between ++ last :: after ∧
      (∀ s ∈ between, isVoid s = true) ∧ (∀ s ∈ after, isVoid s = true) ∧ isVoid last = false ∧
      q = ofParts p.parts.1 kept) ∨
    ((∀ s ∈ p.parts.2, isVoid s = true) ∧ p.parts.1 = "." ∧ q = ⟨""⟩) := by
  rw [parent?] at h
  dsimp only at h
  split at h
  · rename_i last rest hrest
    have hsegments : p.parts.2 = (rest.dropWhile isVoid).reverse ++
        (rest.takeWhile isVoid).reverse ++ last :: (p.parts.2.reverse.takeWhile isVoid).reverse := by
      have hcut : ∀ l : List String, l.reverse =
          (l.dropWhile isVoid).reverse ++ (l.takeWhile isVoid).reverse := by
        intro l
        rw [← List.reverse_append, List.takeWhile_append_dropWhile]
      have hlast := hcut p.parts.2.reverse
      rw [hrest, List.reverse_cons, hcut rest, List.reverse_reverse] at hlast
      simpa using hlast
    refine .inl ⟨_, _, last, _, hsegments, ?_, ?_, ?_, (Option.some.inj h).symm⟩
    · intro s hs
      exact List.mem_takeWhile_imp (List.mem_reverse.mp hs)
    · intro s hs
      exact List.mem_takeWhile_imp (List.mem_reverse.mp hs)
    · have hhead := List.head?_dropWhile_not isVoid p.parts.2.reverse
      rw [hrest] at hhead
      simpa using hhead
  · rename_i hvoid
    split at h
    · rename_i hstart
      refine .inr ⟨fun s hs => ?_, hstart, (Option.some.inj h).symm⟩
      exact List.dropWhile_eq_nil_iff.mp hvoid s (List.mem_reverse.mpr hs)
    · cases h

theorem not_mem_of_mem_parts (h : segment ∈ p.parts.2) : '/' ∉ segment.toList := by
  have hsplit : ∀ s ∈ Text.split '/' p.text, '/' ∉ s.toList :=
    fun s => Text.not_mem_of_mem_split
  rw [parts] at h
  split at h
  · rename_i heq
    split at h
    · cases h
    · exact hsplit segment (heq ▸ List.mem_cons_of_mem _ h)
  · rename_i heq
    rcases List.mem_cons.mp h with rfl | h
    · simp
    · exact hsplit segment (heq ▸ List.mem_cons_of_mem _ h)
  · exact hsplit segment h

theorem parts_cases (p : FilePath) :
    p.parts.1 = "/" ∨ (p.parts.1 = "." ∧ ∃ rest, p.parts.2 = "" :: rest) ∨
      (p.parts.1 = "" ∧ ∀ s ∈ p.parts.2.head?, s ≠ "" ∧ s ≠ ".") := by
  rw [parts]
  split
  · split
    · exact .inr (.inr ⟨rfl, nofun⟩)
    · exact .inl rfl
  · exact .inr (.inl ⟨rfl, _, rfl⟩)
  · rename_i hempty hdot
    refine .inr (.inr ⟨rfl, fun s hs => ?_⟩)
    obtain ⟨rest, hrest⟩ := List.head?_eq_some_iff.mp hs
    constructor
    · rintro rfl
      exact hempty rest hrest
    · rintro rfl
      exact hdot rest hrest

theorem components_parent? (h : p.parent? = some q) : q.components = p.components.dropLast := by
  rcases parent?_eq_some h with
    ⟨kept, between, last, after, hsegments, hbetween, hafter, hlast, rfl⟩ |
    ⟨hvoid, hstart, rfl⟩
  · have hempty : last ≠ "" := by
      rintro rfl
      cases hlast
    have hdot : last ≠ "." := by
      rintro rfl
      cases hlast
    obtain ⟨c, hc⟩ := Option.ne_none_iff_exists'.mp (component?_ne_none hempty hdot)
    have hplain : ∀ s ∈ kept, '/' ∉ s.toList := by
      intro s hs
      exact not_mem_of_mem_parts (p := p) (by simp [hsegments, hs])
    rw [components_eq p, hsegments, List.filterMap_append, List.filterMap_append,
      filterMap_component?_of_isVoid hbetween, List.filterMap_cons, hc,
      filterMap_component?_of_isVoid hafter, List.append_nil, ← List.append_assoc,
      List.dropLast_concat]
    rcases parts_cases p with hstart | ⟨hstart, rest, hrest⟩ | ⟨hstart, hhead⟩
    · rw [hstart, components_ofParts_root hplain]
      rfl
    · rw [hstart]
      cases kept with
      | nil => decide
      | cons first kept =>
          obtain rfl : first = "" := by
            rw [hrest] at hsegments
            exact (List.cons.inj hsegments).1.symm
          rw [components_ofParts_here fun s hs => hplain s (List.mem_cons_of_mem _ hs)]
          rfl
    · rw [hstart]
      cases kept with
      | nil => decide
      | cons first kept =>
          obtain ⟨hempty, hdot⟩ := hhead first (by rw [hsegments]; rfl)
          rw [components_ofParts hempty hdot hplain]
          rfl
  · rw [components_eq p, filterMap_component?_of_isVoid hvoid, hstart]
    decide

theorem components_isPrefix_of_mem_ancestors {fuel : Nat} (h : q ∈ p.ancestors fuel) :
    q.components <+: p.components := by
  induction fuel generalizing p with
  | zero => cases h
  | succ fuel ih =>
      rw [ancestors] at h
      split at h
      · rename_i parent hparent
        rcases List.mem_cons.mp h with rfl | h
        · exact List.prefix_rfl
        · refine (ih h).trans ?_
          rw [components_parent? hparent]
          exact List.dropLast_prefix _
      · cases h

/-! ### The steps of a path -/

/-- The segment of a component that leads on. -/
def Component.step? : Component → Option String
  | root | here => none
  | up => some ".."
  | name s => some s

/-- The segments of a path that lead on. -/
def steps (p : FilePath) : List String := p.components.filterMap Component.step?

theorem filterMap_step?_component? :
    (segments.filterMap component?).filterMap Component.step? = segments.filter (!isVoid ·) := by
  rw [List.filterMap_filterMap, ← List.filterMap_eq_filter]
  congr 1
  funext s
  rw [component?]
  by_cases hvoid : isVoid s = true
  · simp [hvoid, Option.guard]
  · by_cases hup : s = ".."
    · simp [hup, Option.guard, Component.step?, isVoid]
    · simp [hup, hvoid, Option.guard, Component.step?]

theorem filterMap_step?_names (names : List String) :
    (names.map Component.name).filterMap Component.step? = names := by
  rw [List.filterMap_map]
  exact List.filterMap_some

theorem filter_segmentsOf (p : FilePath) :
    (FileTree.segmentsOf p).filter (!isVoid ·) = p.steps := by
  have hsegments : (FileTree.segmentsOf p).filter (!isVoid ·) =
      (Text.split '/' p.text).filter (!isVoid ·) := by
    rw [FileTree.segmentsOf, List.filter_filter]
    refine List.filter_congr fun s _ => ?_
    by_cases hempty : s = "" <;> simp [isVoid, hempty]
  by_cases hp : p.text = ""
  · obtain rfl : p = ⟨""⟩ := congrArg FilePath.mk hp
    decide
  obtain ⟨segment, segments, hsplit⟩ := List.exists_cons_of_ne_nil (Text.split_ne_nil '/' p.text)
  rw [hsegments, hsplit, steps, components_of_split hsplit hp, List.filterMap_append,
    filterMap_step?_component?, ← List.singleton_append, List.filter_append, leading]
  refine congrArg (· ++ _) ?_
  split
  · rename_i hempty
    simp [hempty, isVoid, Component.step?]
  split
  · rename_i hdot
    simp [hdot, isVoid, Component.step?]
  · rw [← filterMap_step?_component?]
    cases hc : component? segment <;> simp [hc]

theorem steps_join (hbase : base.text ≠ "") (hp : p.isAbsolute = false) :
    (base.join p).steps = base.steps ++ p.steps := by
  simp only [← filter_segmentsOf, segmentsOf_join hbase hp, List.filter_append]

/-! ### The path from one place to another -/

theorem route_nil (done base : List Component) :
    route done [] base = some (done ++ base.map fun _ => .up) := by
  induction base generalizing done with
  | nil => rw [route, List.map_nil]
  | cons b base ih => rw [route, ih, List.map_cons, List.append_assoc, List.singleton_append]

theorem route_append (shared target base : List Component) :
    route [] (shared ++ target) (shared ++ base) = route [] target base := by
  induction shared with
  | nil => rfl
  | cons c shared ih => rw [List.cons_append, List.cons_append, route, if_pos (by simp), ih]

theorem route_names (target : List Component) (names : List String) :
    ∃ common below rest, names = common ++ below ∧ target = common.map .name ++ rest ∧
      route [] target (names.map .name) = some (below.map (fun _ => .up) ++ rest) := by
  induction names generalizing target with
  | nil => exact ⟨[], [], target, rfl, rfl, by cases target <;> rfl⟩
  | cons s names ih =>
      cases target with
      | nil =>
          refine ⟨[], s :: names, [], rfl, rfl, ?_⟩
          rw [route_nil, List.map_map]
          simp only [List.nil_append, List.append_nil]
          rfl
      | cons a target =>
          by_cases ha : a = .name s
          · subst ha
            obtain ⟨common, below, rest, hnames, htarget, hroute⟩ := ih target
            refine ⟨s :: common, below, rest, by rw [hnames]; rfl, by rw [htarget]; rfl, ?_⟩
            rw [List.map_cons, route, if_pos (by simp), hroute]
          · refine ⟨[], s :: names, a :: target, rfl, rfl, ?_⟩
            rw [List.map_cons, route, if_neg (by simp [ha]), if_neg (by simp), if_neg (by simp),
              List.map_map]
            rfl

/-- A component that has a text of its own in a relative path. -/
def Component.IsPlain : Component → Prop
  | root => False
  | here | up => True
  | name s => IsOrdinary s ∧ '/' ∉ s.toList

theorem isPlain_of_component?_eq (hsegment : '/' ∉ segment.toList)
    (h : component? segment = some c) : c.IsPlain := by
  rw [component?] at h
  split at h
  · cases h
  rename_i hvoid
  split at h
  · cases h
    trivial
  · cases h
    simp only [isVoid, Bool.or_eq_true, String.isEmpty_iff, decide_eq_true_eq, not_or] at hvoid
    exact ⟨by simp_all [IsOrdinary], hsegment⟩

theorem isPlain_of_mem_components (h : c ∈ p.components) (hroot : c ≠ .root) : c.IsPlain := by
  rw [components_eq] at h
  rcases List.mem_append.mp h with h | h
  · split at h
    · exact absurd (List.mem_singleton.mp h) hroot
    split at h
    · rw [List.mem_singleton.mp h]
      trivial
    · cases h
  · obtain ⟨segment, hsegment, hcomponent⟩ := List.mem_filterMap.mp h
    exact isPlain_of_component?_eq (not_mem_of_mem_parts hsegment) hcomponent

theorem Component.IsPlain.split_text (h : c.IsPlain) :
    c.text ≠ "" ∧ Text.split '/' c.text = [c.text] := by
  cases c with
  | root => exact h.elim
  | here => decide
  | up => decide
  | name s =>
      refine ⟨?_, Text.split_eq_singleton h.2⟩
      rintro (rfl : s = "")
      exact absurd h.1 (by decide)

theorem Component.IsPlain.isAbsolute (h : c.IsPlain) :
    (⟨c.text⟩ : FilePath).isAbsolute = false := by
  obtain ⟨hne, hsplit⟩ := h.split_text
  exact isAbsolute_of_split hsplit hne

theorem Component.IsPlain.steps (h : c.IsPlain) :
    (⟨c.text⟩ : FilePath).steps = [c].filterMap step? := by
  cases c with
  | root => exact h.elim
  | here => decide
  | up => decide
  | name s =>
      obtain ⟨-, hsplit⟩ := h.split_text
      have hordinary := h.1
      simp only [IsOrdinary, List.mem_cons, List.not_mem_nil, or_false, not_or] at hordinary
      rw [← filter_segmentsOf, FileTree.segmentsOf, hsplit]
      simp [text, isVoid, hordinary, step?]

theorem isAbsolute_of_append {l : List Component} (hbase : base.text ≠ "")
    (h : p.components = base.components ++ l) : p.isAbsolute = base.isAbsolute := by
  have hne : base.components ≠ [] := by
    rw [Ne, components_eq_nil_iff]
    rintro rfl
    exact hbase rfl
  rw [Bool.eq_iff_iff, isAbsolute_iff, isAbsolute_iff, h, List.head?_append_of_ne_nil _ hne]

theorem isAbsolute_join (hbase : base.text ≠ "") (hp : p.isAbsolute = false) :
    (base.join p).isAbsolute = base.isAbsolute :=
  isAbsolute_of_append hbase (components_join hbase hp)

theorem steps_foldl_join {l : List Component} (hl : ∀ c ∈ l, c.IsPlain) (hp : p.text ≠ "") :
    (l.foldl (fun (p : FilePath) c => p.join ⟨c.text⟩) p).steps =
        p.steps ++ l.filterMap Component.step? ∧
      (l.foldl (fun (p : FilePath) c => p.join ⟨c.text⟩) p).isAbsolute = p.isAbsolute := by
  induction l generalizing p with
  | nil => simp
  | cons c l ih =>
      obtain ⟨hc, hl⟩ := List.forall_mem_cons.mp hl
      obtain ⟨hsteps, habsolute⟩ := ih hl (text_join_ne hp hc.isAbsolute)
      rw [List.foldl_cons, hsteps, steps_join hp hc.isAbsolute, hc.steps, habsolute,
        isAbsolute_join hp hc.isAbsolute, List.append_assoc, ← List.filterMap_append]
      exact ⟨rfl, rfl⟩

theorem steps_foldl_join_empty {l : List Component} (hl : ∀ c ∈ l, c.IsPlain) :
    (l.foldl (fun (p : FilePath) c => p.join ⟨c.text⟩) ⟨""⟩).steps = l.filterMap Component.step? ∧
      (l.foldl (fun (p : FilePath) c => p.join ⟨c.text⟩) ⟨""⟩).isAbsolute = false := by
  cases l with
  | nil => decide
  | cons c l =>
      obtain ⟨hc, hl⟩ := List.forall_mem_cons.mp hl
      have hjoin : (⟨""⟩ : FilePath).join ⟨c.text⟩ = ⟨c.text⟩ := by
        rw [join, if_pos (by simp)]
      obtain ⟨hsteps, habsolute⟩ := steps_foldl_join (p := ⟨c.text⟩) hl hc.split_text.1
      rw [List.foldl_cons, hjoin, hsteps, hc.steps, habsolute, hc.isAbsolute,
        ← List.filterMap_append]
      exact ⟨rfl, rfl⟩

theorem root_not_mem_of_append {shared rest : List Component}
    (habsolute : target.isAbsolute = base.isAbsolute)
    (hbase : base.components = shared ++ names.map .name)
    (htarget : target.components = shared ++ rest) : Component.root ∉ rest := by
  cases shared with
  | nil =>
      intro hroot
      have hrelative : base.isAbsolute ≠ true := by
        rw [Ne, isAbsolute_iff, hbase]
        cases names <;> simp
      cases rest with
      | nil => cases hroot
      | cons c rest =>
          rcases List.mem_cons.mp hroot with rfl | hroot
          · rw [← habsolute, Ne, isAbsolute_iff, htarget] at hrelative
            exact hrelative rfl
          · exact root_not_mem_tail_components (p := target) (by rwa [htarget])
  | cons c shared =>
      intro hroot
      refine root_not_mem_tail_components (p := target) ?_
      rw [htarget]
      exact List.mem_append_right _ hroot

/-- The path from below a place to a target: up to what the two have in common, and down from there
as the target does. -/
theorem relativeTo_eq_some {shared rest : List Component} {relative : FilePath}
    (habsolute : target.isAbsolute = base.isAbsolute)
    (hbase : base.components = shared ++ names.map .name)
    (htarget : target.components = shared ++ rest)
    (h : target.relativeTo base = some relative) :
    ∃ common below after, names = common ++ below ∧ rest = common.map .name ++ after ∧
      relative.isAbsolute = false ∧
      relative.steps = below.map (fun _ => "..") ++ after.filterMap Component.step? := by
  obtain ⟨common, below, after, hnames, hrest, hroute⟩ := route_names rest names
  refine ⟨common, below, after, hnames, hrest, ?_⟩
  rw [relativeTo, if_pos habsolute, hbase, htarget, route_append, hroute] at h
  cases h
  have hplain : ∀ c ∈ below.map (fun _ => Component.up) ++ after, c.IsPlain := by
    intro c hc
    rcases List.mem_append.mp hc with hc | hc
    · obtain ⟨-, -, rfl⟩ := List.mem_map.mp hc
      trivial
    · refine isPlain_of_mem_components (p := target) (by simp [htarget, hrest, hc]) ?_
      rintro rfl
      exact root_not_mem_of_append habsolute hbase htarget (by simp [hrest, hc])
  obtain ⟨hsteps, hrelative⟩ := steps_foldl_join_empty hplain
  refine ⟨hrelative, ?_⟩
  rw [hsteps, List.filterMap_append, List.filterMap_map]
  congr 1
  simp [Function.comp_def, Component.step?]

/-! ### Paths below other paths -/

/-- A path is that of names below the place to which another path leads. -/
structure IsBelow (base p : FilePath) (names : List String) : Prop where
  components : p.components = base.components ++ names.map .name
  segments : FileTree.segmentsOf p = FileTree.segmentsOf base ++ names
  entry : FileTree.asDirectory p = false
  ordinary : ∀ s ∈ names, IsOrdinary s

theorem IsBelow.append {names' : List String} (h : IsBelow base p names)
    (h' : IsBelow p q names') : IsBelow base q (names ++ names') where
  components := by rw [h'.components, h.components, List.append_assoc, List.map_append]
  segments := by rw [h'.segments, h.segments, List.append_assoc]
  entry := h'.entry
  ordinary := by
    intro s hs
    exact (List.mem_append.mp hs).elim (h.ordinary s) (h'.ordinary s)

theorem isBelow_join (text : String) (hbase : base.text ≠ "")
    (hordinary : ∀ s ∈ Text.split '/' text, IsOrdinary s) :
    IsBelow base (base.join ⟨text⟩) (Text.split '/' text) := by
  obtain ⟨segment, segments, hsplit⟩ := List.exists_cons_of_ne_nil (Text.split_ne_nil '/' text)
  have hne : ∀ s ∈ Text.split '/' text, s ≠ "" := by
    rintro s hs rfl
    exact absurd (hordinary _ hs) (by decide)
  have hrelative : (⟨text⟩ : FilePath).isAbsolute = false :=
    isAbsolute_of_split hsplit (hne segment (by rw [hsplit]; exact List.mem_cons_self))
  refine ⟨?_, ?_, asDirectory_join hbase hrelative ?_, hordinary⟩
  · rw [components_join hbase hrelative]
    refine congrArg (base.components ++ ·) ?_
    rw [← List.filterMap_eq_map]
    exact List.filterMap_congr fun s hs => (hordinary s hs).component?
  · rw [segmentsOf_join hbase hrelative]
    refine congrArg (FileTree.segmentsOf base ++ ·) ?_
    rw [FileTree.segmentsOf, List.filter_eq_self]
    intro s hs
    simpa using hne s hs
  · intro hlast
    exact hne "" (List.mem_of_getLast? hlast) rfl

theorem IsBelow.steps (h : IsBelow base p names) : p.steps = base.steps ++ names := by
  rw [FilePath.steps, h.components, List.filterMap_append, filterMap_step?_names]
  rfl

theorem IsBelow.components_parent? {name : String} (h : IsBelow base p (names ++ [name]))
    (hparent : p.parent? = some q) : q.components = base.components ++ names.map .name := by
  rw [FilePath.components_parent? hparent, h.components, List.map_append, ← List.append_assoc]
  exact List.dropLast_concat

end FilePath

end DepSolver
