import DepSolver.Disk.FileTree

/-!
Operations on a disk. An operation that fails keeps what it changed before.
-/

namespace DepSolver

/-- An operation on a tree of files. -/
abbrev DiskM := ExceptT DiskError (StateM FileTree)

namespace Disk

/-- Look at the tree. -/
def inspect {α : Type} (f : FileTree → Except DiskError α) : DiskM α := do
  match f (← get) with
  | .ok a => return a
  | .error e => throw e

/-- Run an operation, and turn its failure into a result. -/
def outcome {α : Type} (x : DiskM α) : DiskM (Except DiskError α) :=
  fun t => let (result, t) := x t; (.ok result, t)

/-- Make a directory in one that exists. -/
def makeDirectory (p : FilePath) : DiskM Unit := do
  match ← inspect (·.resolve .entry p) with
  | .taken _ => throw .alreadyExists
  | .free directory name => modify (·.insert (directory ++ [name]) .directory)

/-- Make a directory in one that exists, unless it exists itself. The result says whether the one
above it is missing. -/
def tryDirectory (p : FilePath) : DiskM Bool := do
  match ← outcome (makeDirectory p) with
  | .ok () => return false
  | .error .notFound => return true
  | .error .alreadyExists =>
      if (← get).isDirectory p then return false
      throw .alreadyExists
  | .error e => throw e

/-- Make the first directory of a list, and those after it, which are above it, where they are
missing. -/
def makeDirectoriesUp : List FilePath → DiskM Unit
  | [] => return
  | p :: above => do
      if ← tryDirectory p then
        makeDirectoriesUp above
        if ← tryDirectory p then throw .notFound

/-- Make a directory and those above it that are missing. -/
def makeDirectories (p : FilePath) : DiskM Unit :=
  makeDirectoriesUp (p.ancestors (p.components.length + 1))

/-- Make a directory unless something exists at its path. -/
def ensureDirectory (p : FilePath) : DiskM Unit := do
  if !(← get).pathExists p then makeDirectories p

/-- Write a file, in place of what it held. A link is followed. -/
def write (p : FilePath) (content : FileContent) : DiskM Unit := do
  match ← inspect (·.resolve .file p) with
  | .free directory name => modify (·.insert (directory ++ [name]) (.file content))
  | .taken place =>
      if (← get).hasDirectory place then throw .isDirectory
      modify (·.insert place (.file content))

/-- Move a file, in place of the file or link that stands at the new path. -/
def moveFile (source target : FilePath) : DiskM Unit := do
  match ← inspect (·.resolve .entry source) with
  | .free _ _ => throw .notFound
  | .taken old =>
      let some node := (← get).node? old | throw .notFound
      let found ← inspect (·.resolve .entry target)
      if !FileTree.endsInName target then throw .busy
      if FileTree.asDirectory target then throw .notDirectory
      match found with
      | .free directory name =>
          modify fun t => (t.erase old).insert (directory ++ [name]) node
      | .taken place =>
          if (← get).hasDirectory place then throw .isDirectory
          modify fun t => (t.erase old).insert place node

/-- Write a file by way of another one beside it, so that it never holds a part of the text. -/
def writeAtomic (p : FilePath) (s : String) : DiskM Unit := do
  if let some parent := p.parent? then ensureDirectory parent
  let draft := p.withFileName ("." ++ p.fileName?.getD "" ++ ".tmp")
  write draft (.text s)
  moveFile draft p

/-- Make a symbolic link. -/
def makeLink (target p : FilePath) : DiskM Unit := do
  if FileTree.pathError? p = some .nulCharacter then throw .nulCharacter
  if let some e := FileTree.pathError? target then throw e
  match ← inspect (·.resolve .entry p) with
  | .taken _ => throw .alreadyExists
  | .free directory name =>
      if FileTree.asDirectory p then throw .notFound
      modify (·.insert (directory ++ [name]) (.link target))

end Disk

end DepSolver
