import DepSolver.Text.Basic

/-!
Import paths and the projects that own them. A project owns the path of its root and every path
below it, segment by segment.
-/

namespace DepSolver

/-- The import path that names a project. -/
structure ProjectRoot where
  path : String
deriving DecidableEq, Inhabited

instance : Ord ProjectRoot := ⟨compareOn ProjectRoot.path⟩

instance : Std.TransOrd ProjectRoot :=
  inferInstanceAs (Std.TransCmp (compareOn ProjectRoot.path))

instance : Std.LawfulEqOrd ProjectRoot where
  eq_of_compare {x y} h := by
    have same : compare x.path y.path = .eq := h
    cases x
    cases y
    simp_all

namespace ImportPath

/-- Whether `path` is `base` or lies below it: `a/b` is within `a`, and `ab` is not. Every path
is within the empty one. -/
def isWithin (path base : String) : Bool :=
  match Text.dropStart? base.toList path.toList with
  | none => false
  | some [] => true
  | some (c :: _) => c = '/' || base.isEmpty

/-- Whether a path belongs to the standard library: its first element has no dot. -/
def isStandard (path : String) : Bool :=
  !(path.toList.takeWhile (· ≠ '/')).contains '.'

end ImportPath

namespace ProjectRoot

/-- The project of a path; one slash at its end is dropped. -/
def ofString (s : String) : ProjectRoot :=
  match Text.dropEnding? ['/'] s.toList with
  | some rest => ⟨.ofList rest⟩
  | none => ⟨s⟩

/-- Whether an import path belongs to the project. -/
def contains (root : ProjectRoot) (path : String) : Bool :=
  ImportPath.isWithin path root.path

/-- An import path relative to the root, with `.` for the root itself. -/
def relative (root : ProjectRoot) (path : String) : Option String :=
  if path = root.path then some "."
  else
    match Text.dropStart? root.path.toList path.toList with
    | some ('/' :: rest) => some (.ofList rest)
    | _ => none

/-- The import path of a path relative to the root. -/
def join (root : ProjectRoot) (relative : String) : String :=
  if relative = "." || relative.isEmpty then root.path
  else root.path ++ "/" ++ relative

/-- The part of a path before its slash number `n`, counted from zero, or all of it. -/
def beforeSlash : Nat → List Char → List Char
  | _, [] => []
  | 0, '/' :: _ => []
  | n + 1, '/' :: rest => '/' :: beforeSlash n rest
  | n, c :: rest => c :: beforeSlash n rest

/-- The project of the first three elements of an import path. -/
def ofFirstElements (path : String) : ProjectRoot :=
  .ofString (.ofList (beforeSlash 2 path.toList))

end ProjectRoot

end DepSolver
