import DepSolver.Ignore
import DepSolver.ProjectRoot

/-!
The packages of a source tree by import path. A package that could not be parsed is kept in its
place, so that it matters only where something imports it.
-/

namespace DepSolver

/-- A package and what it imports. -/
structure Package where
  importPath : String
  name : String
  imports : List String
  /-- What only its tests import. -/
  testImports : List String
deriving DecidableEq, Inhabited

/-- What stands at an import path: a package, or why it could not be parsed. -/
inductive PackageEntry
  | package (p : Package)
  | broken (message : String)
deriving DecidableEq, Inhabited

def PackageEntry.package? : PackageEntry → Option Package
  | package p => some p
  | broken _ => none

/-- The packages below an import root. -/
structure PackageTree where
  importRoot : String
  packages : Table String PackageEntry
deriving DecidableEq

namespace PackageTree

/-- The tree without packages. -/
def ofRoot (importRoot : String) : PackageTree := ⟨importRoot, .empty⟩

instance : Inhabited PackageTree := ⟨ofRoot ""⟩

def get? (t : PackageTree) (path : String) : Option PackageEntry := t.packages.get? path

def contains (t : PackageTree) (path : String) : Bool := t.packages.contains path

def insertPackage (t : PackageTree) (p : Package) : PackageTree :=
  { t with packages := t.packages.insert p.importPath (.package p) }

def insertBroken (t : PackageTree) (path message : String) : PackageTree :=
  { t with packages := t.packages.insert path (.broken message) }

/-- Remove every entry equal to or below one of some paths. -/
def strip (t : PackageTree) (bases : List String) : PackageTree :=
  { t with packages := t.packages.filter fun path _ => !bases.any (ImportPath.isWithin path) }

/-- Put another tree in place of everything at or below some paths. Where both have an entry, that
of the other tree stays. -/
def merge (t other : PackageTree) (bases : List String) : PackageTree :=
  let stripped := t.strip bases
  { stripped with packages := stripped.packages.extend other.packages }

/-- The packages that could be parsed. -/
def validPackages (t : PackageTree) : List Package :=
  t.packages.values.filterMap (·.package?)

/-- The packages that could not be parsed, with the reasons. -/
def errors (t : PackageTree) : List (String × String) :=
  t.packages.entries.filterMap fun
    | (path, .broken message) => some (path, message)
    | _ => none

/-- The errors to report before a solve. A tree without any package, and one in which every package
that is not ignored is broken, cannot be solved at all. -/
def checkErrors (t : PackageTree) (ignored : IgnoreRules) : Except Failure (List String) :=
  if t.packages.isEmpty then
    .error (.input s!"no packages found under {t.importRoot}")
  else
    let relevant := t.packages.entries.filter fun x => !ignored.ignores x.1
    let broken := relevant.filterMap fun
      | (path, .broken message) => some s!"{path}: {message}"
      | _ => none
    if !relevant.isEmpty && broken.length = relevant.length then
      .error (.unparsed t.importRoot
        ("every package failed to parse:\n  " ++ "\n  ".intercalate broken))
    else .ok broken

/-- A listing of a tree. -/
protected def toString (t : PackageTree) : String :=
  s!"{t.importRoot}\n" ++ String.join (t.packages.entries.map fun
    | (path, .package p) => s!"  {path} ({p.imports.length} imports)\n"
    | (path, .broken message) => s!"  {path} [error: {message}]\n")

instance : ToString PackageTree := ⟨PackageTree.toString⟩

end PackageTree

end DepSolver
