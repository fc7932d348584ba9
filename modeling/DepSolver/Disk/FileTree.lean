import DepSolver.Digest
import DepSolver.Disk.Path
import DepSolver.Table

/-!
Trees of files, directories and symbolic links, and where paths lead in them. Relative paths start
at the root of the tree.
-/

namespace DepSolver

/-- What a file holds: a text, or bytes that are no text. -/
inductive FileContent
  | text (s : String)
  | binary (bytes : List UInt8)
deriving DecidableEq, Inhabited

/-- What stands at a place in a tree. -/
inductive FileNode
  | directory
  | file (content : FileContent)
  | link (target : FilePath)
deriving DecidableEq, Inhabited

/-- Why the disk refuses an operation. -/
inductive DiskError
  | notFound
  | busy
  | alreadyExists
  | notDirectory
  | isDirectory
  | invalid
  | nameTooLong
  | tooManyLinks
  /-- A path has a character that no path may have. -/
  | nulCharacter
  /-- The bytes of a file are no text. -/
  | notText
  | noParent
  | noRelativePath (target : FilePath)
deriving DecidableEq

def DiskError.message : DiskError → String
  | notFound => "No such file or directory (os error 2)"
  | busy => "Device or resource busy (os error 16)"
  | alreadyExists => "File exists (os error 17)"
  | notDirectory => "Not a directory (os error 20)"
  | isDirectory => "Is a directory (os error 21)"
  | invalid => "Invalid argument (os error 22)"
  | nameTooLong => "File name too long (os error 36)"
  | tooManyLinks => "Too many levels of symbolic links (os error 40)"
  | nulCharacter => "file name contained an unexpected NUL byte"
  | notText => "stream did not contain valid UTF-8"
  | noParent => "link has no parent"
  | noRelativePath target => s!"no relative path to {target.text}"

/-- A tree of files: what stands where, by the names that lead there from the root. The root is a
directory without an entry. -/
structure FileTree where
  nodes : Table (List String) FileNode
deriving DecidableEq

namespace FileTree

def empty : FileTree := ⟨.empty⟩

instance : Inhabited FileTree := ⟨empty⟩

/-- What stands at a place. -/
def node? (t : FileTree) (place : List String) : Option FileNode :=
  if place.isEmpty then some .directory else t.nodes.get? place

def hasDirectory (t : FileTree) (place : List String) : Bool := t.node? place = some .directory

def insert (t : FileTree) (place : List String) (n : FileNode) : FileTree :=
  ⟨t.nodes.insert place n⟩

def erase (t : FileTree) (place : List String) : FileTree := ⟨t.nodes.erase place⟩

/-- Everything below a place, each with the names that lead there from that place. A directory comes
before what it holds, and names are in order. -/
def below (t : FileTree) (place : List String) : List (List String × FileNode) :=
  t.nodes.entries.filterMap fun (k, n) =>
    if place.isPrefixOf k && k ≠ place then some (k.drop place.length, n) else none

/-- The names of the directories in a directory, in order. A link to a directory is none of them. -/
def subdirectories (t : FileTree) (place : List String) : List String :=
  (t.below place).filterMap fun
    | ([name], .directory) => some name
    | _ => none

/-- Where a path leads: to something that exists, or to a name that is free in a directory. -/
inductive Place
  | taken (place : List String)
  | free (directory : List String) (name : String)
deriving DecidableEq

/-- The segments of a path that lead somewhere. -/
def segmentsOf (p : FilePath) : List String := (Text.split '/' p.text).filter (!·.isEmpty)

/-- Whether a path ends in a slash, and so can only lead to a directory. -/
def asDirectory (p : FilePath) : Bool := Text.endsWith "/" p.text

/-- The segments of a path, with an empty one at the end if it can only lead to a directory. -/
def segmentsThrough (p : FilePath) : List String :=
  segmentsOf p ++ if asDirectory p then [""] else []

/-- Whether the last segment of a path is a name of its own. -/
def endsInName (p : FilePath) : Bool :=
  match (segmentsOf p).getLast? with
  | none => false
  | some s => s ≠ "." && s ≠ ".."

/-- The number of links that a path may lead through. -/
def linkLimit : Nat := 40

/-- The largest number of bytes in a name. -/
def nameLimit : Nat := 255

/-- The largest number of bytes in a path. -/
def pathLimit : Nat := 4095

/-- Why the disk takes a text for no path at all, if so. -/
def pathError? (p : FilePath) : Option DiskError :=
  if p.text.toList.contains '\x00' then some .nulCharacter
  else if p.text.isEmpty then some .notFound
  else if pathLimit < p.text.utf8ByteSize then some .nameTooLong
  else none

/-- What a path is used for. -/
inductive PathUse
  /-- To reach what it leads to; links are followed. -/
  | target
  /-- To reach what stands in its directory; a link at the end is not followed. -/
  | entry
  /-- To write a file; links are followed, and a slash at the end is refused. -/
  | file
deriving DecidableEq

/-- Follow segments from a place. A link at the end is followed as the use says, others always. -/
def walk (t : FileTree) (use : PathUse) (links : Nat) (current : List String) :
    List String → Except DiskError Place
  | [] => .ok (.taken current)
  | s :: rest =>
      if !t.hasDirectory current then .error .notDirectory
      else if s.isEmpty || s = "." then t.walk use links current rest
      else if s = ".." then t.walk use links current.dropLast rest
      else if use = .file && rest = [""] then .error .isDirectory
      else if nameLimit < s.utf8ByteSize then .error .nameTooLong
      else
        let place := current ++ [s]
        match t.node? place with
        | none => if rest.isEmpty then .ok (.free current s) else .error .notFound
        | some (.link target) =>
            if rest.isEmpty && use = .entry then .ok (.taken place)
            else
              match links with
              | 0 => .error .tooManyLinks
              | links + 1 =>
                  t.walk use links (if target.isAbsolute then [] else current)
                    (segmentsThrough target ++ rest)
        | some _ => t.walk use links place rest
termination_by segments => (links, segments.length)

/-- Where a path leads. -/
def resolve (t : FileTree) (use : PathUse) (p : FilePath) : Except DiskError Place :=
  match pathError? p with
  | some e => .error e
  | none => t.walk use linkLimit [] (if use = .entry then segmentsOf p else segmentsThrough p)

/-- What exists at a path, with its place. Links are followed. -/
def lookup (t : FileTree) (p : FilePath) : Except DiskError (List String × FileNode) := do
  match ← t.resolve .target p with
  | .free _ _ => .error .notFound
  | .taken place =>
      match t.node? place with
      | some n => .ok (place, n)
      | none => .error .notFound

/-- Whether something exists at a path. -/
def pathExists (t : FileTree) (p : FilePath) : Bool := (t.lookup p).toOption.isSome

def isDirectory (t : FileTree) (p : FilePath) : Bool :=
  match t.lookup p with
  | .ok (_, .directory) => true
  | _ => false

def isFile (t : FileTree) (p : FilePath) : Bool :=
  match t.lookup p with
  | .ok (_, .file _) => true
  | _ => false

/-- The text of a file. -/
def readText (t : FileTree) (p : FilePath) : Except DiskError String := do
  match ← t.lookup p with
  | (_, .file (.text s)) => .ok s
  | (_, .file (.binary _)) => .error .notText
  | _ => .error .isDirectory

/-- The target of a link. -/
def linkTarget? (t : FileTree) (p : FilePath) : Option FilePath :=
  match t.resolve (if asDirectory p then .target else .entry) p with
  | .ok (.taken place) =>
      match t.node? place with
      | some (.link target) => some target
      | _ => none
  | _ => none

/-- The files in a directory, in order of their names. A link to a file counts as one. -/
def filesIn (t : FileTree) (p : FilePath) : Except DiskError (List (String × FileContent)) := do
  match ← t.lookup p with
  | (place, .directory) =>
      return (t.below place).filterMap fun
        | ([name], _) =>
            match t.lookup (p.join ⟨name⟩) with
            | .ok (_, .file content) => some (name, content)
            | _ => none
        | _ => none
  | _ => .error .notDirectory

end FileTree

end DepSolver
