import DepSolver.Semver.Parser

/-!
The versions of a project that can be chosen: releases, tags, branches and bare revisions.
-/

namespace DepSolver

/-- An immutable state of a project's sources, such as a commit. -/
structure Revision where
  text : String
deriving DecidableEq, Inhabited

instance : Ord Revision := ⟨compareOn Revision.text⟩

instance : Std.TransOrd Revision :=
  inferInstanceAs (Std.TransCmp (compareOn Revision.text))

/-- A version of a project. All but a bare revision may be paired with the revision that they
point at. -/
inductive Version
  /-- A tag that reads as a semantic version; `tag` is its text as written. -/
  | semver (version : Semver) (tag : String) (revision : Option Revision)
  /-- A tag that is no semantic version. -/
  | tag (name : String) (revision : Option Revision)
  | branch (name : String) (revision : Option Revision)
  | revision (revision : Revision)
deriving DecidableEq, Inhabited

namespace Version

/-- Read a semantic version, with or without a `v` before it. -/
def parseSemver (s : String) : Except Semver.ParseError Version :=
  let text := Text.trim s
  let number := (Text.dropStart? ['v'] text.toList).getD text.toList
  (Semver.parseChars number).map (.semver · text none)

/-- The version of a tag: a semantic version if it reads as one. -/
def ofTag (name : String) : Version :=
  match parseSemver name with
  | .ok v => v
  | .error _ => .tag name none

/-- Pair a version with the revision that it points at. -/
def paired (v : Version) (r : Revision) : Version :=
  match v with
  | .semver version text _ => .semver version text (some r)
  | .tag name _ => .tag name (some r)
  | .branch name _ => .branch name (some r)
  | .revision _ => .revision r

/-- The revision that a version points at, if known. -/
def underlying : Version → Option Revision
  | .semver _ _ r | .tag _ r | .branch _ r => r
  | .revision r => some r

def isPrerelease : Version → Bool
  | .semver v _ _ => v.isPrerelease
  | _ => false

/-- Whether two versions name the same thing, apart from their revisions. A bare revision names
whatever points at it. -/
def sameName : Version → Version → Bool
  | .semver a _ _, .semver b _ _ => a = b
  | .tag a _, .tag b _ => a = b
  | .branch a _, .branch b _ => a = b
  | .revision a, other => other.underlying = some a
  | other, .revision a => other.underlying = some a
  | _, _ => false

/-- Whether two versions are the same release, where an unknown revision agrees with any. -/
def sameRelease (a b : Version) : Bool :=
  let revisionsAgree :=
    match a.underlying, b.underlying with
    | some r, some s => r = s
    | _, _ => true
  sameName a b && revisionsAgree

/-- The texts of the revision, the branch and the tag, empty where there is none. -/
def components (v : Version) : String × String × String :=
  let revision := v.underlying.elim "" Revision.text
  match v with
  | .semver _ name _ => (revision, "", name)
  | .tag name _ => (revision, "", name)
  | .branch name _ => (revision, name, "")
  | .revision _ => (revision, "", "")

/-- The text of a version. -/
protected def toString : Version → String
  | .semver _ name _ | .tag name _ | .branch name _ => name
  | .revision r => r.text

instance : ToString Version := ⟨Version.toString⟩

/-- The place of a kind of version in the order of upgrades: releases, prereleases, branches, tags,
bare revisions. -/
def rank : Version → Nat
  | .semver v _ _ => if v.isPrerelease then 1 else 0
  | .branch _ _ => 2
  | .tag _ _ => 3
  | .revision _ => 4

/-- The order among versions of one kind, apart from their revisions: the newest semantic version
first, and names as texts. -/
def compareNames : Version → Version → Ordering
  | .semver x tx _, .semver y ty _ => (compare y x).then (compare tx ty)
  | .tag x _, .tag y _ => compare x y
  | .branch x _, .branch y _ => compare x y
  | _, _ => .eq

/-- The order of upgrades: the most desirable version first. -/
def upgradeOrder (a b : Version) : Ordering :=
  (compare a.rank b.rank).then <| (compareNames a b).then (compare a.underlying b.underlying)

end Version

end DepSolver
