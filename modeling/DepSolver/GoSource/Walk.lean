import DepSolver.GoSource.Directory

/-!
The package tree of a directory: the packages of that directory and of all those below it that may
hold packages, each under its import path.
-/

namespace DepSolver

/-- Which directories are visited, by paths relative to the root. -/
structure BuildOptions where
  /-- The directories to analyze; all of them if there is none. -/
  sourcePaths : List FilePath
  /-- The directories to skip. -/
  skipDirs : List FilePath
deriving DecidableEq

def BuildOptions.standard : BuildOptions := ⟨[], []⟩

namespace BuildOptions

/-- The path of a place below the root. -/
def components (place : List String) : List FilePath.Component := place.map .name

/-- Whether a place lies at or below a path. -/
def isBelow (place : List String) (p : FilePath) : Bool :=
  p.components.isPrefixOf (components place)

/-- Whether a place lies at or above a path. -/
def isAbove (place : List String) (p : FilePath) : Bool :=
  (components place).isPrefixOf p.components

/-- Whether a directory of this name may hold packages. -/
def isVisitable (name : String) : Bool :=
  !(Text.startsWith "." name || Text.startsWith "_" name || name = "vendor" || name = "testdata")

/-- Whether a directory below the root is entered from the one that holds it. -/
def enters (o : BuildOptions) (place : List String) : Bool :=
  place.getLast?.all isVisitable && !o.skipDirs.any (isBelow place) &&
    (o.sourcePaths.isEmpty || o.sourcePaths.any fun p => isBelow place p || isAbove place p)

/-- Whether a directory that is visited is analyzed. -/
def analyzes (o : BuildOptions) (place : List String) : Bool :=
  o.sourcePaths.isEmpty || o.sourcePaths.any (isBelow place)

end BuildOptions

namespace GoSource

/-- The import path of a place below the root. -/
def importPathOf (importRoot : String) (place : List String) : String :=
  if place.isEmpty then importRoot
  else
    let path := "/".intercalate place
    if importRoot.isEmpty then path else importRoot ++ "/" ++ path

/-- The places below a place that are entered, at most `levels` levels down, each before those in
it. A directory that is not entered is passed over with everything below it. All places are relative
to `start`. -/
def visitBelow (t : FileTree) (enters : List String → Bool) (start : List String) :
    (levels : Nat) → (place : List String) → List (List String)
  | 0, _ => []
  | levels + 1, place =>
      (((t.subdirectories (start ++ place)).map (place ++ [·])).filter enters).flatMap fun inner =>
        inner :: visitBelow t enters start levels inner

/-- The directories to visit: the root, unless its path is a link, and those below it. -/
def directories (t : FileTree) (o : BuildOptions) (rootDir : FilePath) : List (List String) :=
  match t.lookup rootDir with
  | .ok (start, .directory) =>
      let inside := visitBelow t o.enters start t.nodes.size []
      if (t.linkTarget? rootDir).isSome then inside else [] :: inside
  | _ => []

/-- The directories to analyze. -/
def analyzed (t : FileTree) (o : BuildOptions) (rootDir : FilePath) : List (List String) :=
  (directories t o rootDir).filter o.analyzes

/-- What finds the package of a directory, given its path and its import path. -/
abbrev Analyzer : Type := FilePath → String → Except String (Option Package)

/-- The path of a place below a directory. -/
def pathOf (rootDir : FilePath) (place : List String) : FilePath :=
  place.foldl (fun p name => p.join ⟨name⟩) rootDir

/-- Put what is found in a directory into a tree. -/
def addDirectory (analyzer : Analyzer) (rootDir : FilePath) (tree : PackageTree)
    (place : List String) : PackageTree :=
  let importPath := importPathOf tree.importRoot place
  match analyzer (pathOf rootDir place) importPath with
  | .ok (some package) =>
      { tree with packages := tree.packages.insert importPath (.package package) }
  | .ok none => tree
  | .error message => tree.insertBroken importPath message

end GoSource

/-- What an analyzer finds in a directory and below it. -/
def PackageTree.buildWith (analyzer : GoSource.Analyzer) (t : FileTree) (rootDir : FilePath)
    (importRoot : String) (o : BuildOptions) : Except Failure PackageTree :=
  if !t.isDirectory rootDir then
    .error (.input s!"{rootDir.text} is not a directory")
  else
    .ok ((GoSource.analyzed t o rootDir).foldl (GoSource.addDirectory analyzer rootDir)
      (.ofRoot importRoot))

/-- The packages in a directory and below it. -/
def PackageTree.build (t : FileTree) (rootDir : FilePath) (importRoot : String) (o : BuildOptions) :
    Except Failure PackageTree :=
  buildWith (GoSource.analyze t) t rootDir importRoot o

end DepSolver
