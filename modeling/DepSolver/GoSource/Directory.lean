import DepSolver.Disk.FileTree
import DepSolver.GoSource.Header
import DepSolver.PackageTree
import DepSolver.SortedSet

/-!
The package of one directory. Its files have to agree on the name of the package; test files may
also belong to a package of that name with `_test` at its end. Imports of test files are kept apart.
-/

namespace DepSolver.GoSource

/-- What the files of a directory that were read so far say about its package. -/
structure Summary where
  /-- The name of the package, with the file that gave it. -/
  name : Option (String × String)
  /-- The name that the first test file gives. -/
  testName : Option String
  imports : SortedSet String
  testImports : SortedSet String
deriving DecidableEq

namespace Summary

def empty : Summary := ⟨none, none, .empty, .empty⟩

/-- Take in the name of a package that a file gives. -/
def addName (s : Summary) (fileName packageName : String) : Except String Summary :=
  match s.name with
  | none => .ok { s with name := some (packageName, fileName) }
  | some (name, first) =>
      if name = packageName then .ok s
      else .error s!"found packages {name} ({first}) and {packageName} ({fileName})"

def addHeader (s : Summary) (fileName : String) (h : Header) : Except String Summary :=
  if Text.endsWith "_test.go" fileName then
    let s := { s with testImports := s.testImports.insertAll h.imports }
    match Text.dropEnding? "_test".toList h.packageName.toList with
    | some base => .ok { s with testName := s.testName.or (some (.ofList base)) }
    | none =>
        addName { s with testName := s.testName.or (some h.packageName) } fileName h.packageName
  else addName { s with imports := s.imports.insertAll h.imports } fileName h.packageName

def addFile (s : Summary) (fileName : String) (content : FileContent) : Except String Summary :=
  match content with
  | .binary _ => .error s!"{fileName}: {DiskError.notText.message}"
  | .text source =>
      if isIgnored (Text.lines source.toList) then .ok s
      else
        match readHeader source with
        | .error e => .error s!"{fileName}: {e.message}"
        | .ok h => s.addHeader fileName h

/-- The package, unless there is no file that gives a name. The pseudo-package `C` is no import, and
tests do not import their own package. -/
def package? (s : Summary) (importPath : String) : Option Package :=
  ((s.name.map (·.1)).or s.testName).map fun name =>
    { importPath, name
      imports := (s.imports.erase "C").toList
      testImports := ((s.testImports.erase "C").erase importPath).toList }

end Summary

/-- Whether a file name ends in `.go`, after something else. -/
def isSourceName (name : String) : Bool := Text.endsWith ".go" name && name ≠ ".go"

/-- The package of some files, in order of their names. -/
def packageOf (files : List (String × FileContent)) (importPath : String) :
    Except String (Option Package) := do
  let summary ← (files.filter fun (name, _) => isSourceName name).foldlM
    (fun s (name, content) => s.addFile name content) Summary.empty
  return summary.package? importPath

def analyze (t : FileTree) (p : FilePath) (importPath : String) :
    Except String (Option Package) :=
  match t.filesIn p with
  | .ok files => packageOf files importPath
  | .error e => .error s!"cannot read {p.text}: {e.message}"

end DepSolver.GoSource
