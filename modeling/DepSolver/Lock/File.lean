import DepSolver.Lock.Record
import DepSolver.Operation

/-!
Lock files. A lock is written only when it says something new.
-/

namespace DepSolver

namespace Lock

/-- The name of the lock file in the directory of a project. -/
def fileName : FilePath := ⟨"kdep.lock"⟩

/-- Read the lock of a file. -/
def ofPath (t : FileTree) (p : FilePath) : Except Failure Lock :=
  match t.readText p with
  | .ok s => parse s
  | .error e => .error (.input s!"Failed to read lock {p.text}: {e.message}")

/-- Read the lock of a file, if there is such a file. -/
def ofPath? (t : FileTree) (p : FilePath) : Except Failure (Option Lock) :=
  if t.isFile p then (ofPath t p).map some else .ok none

/-- Write a lock into a file. -/
def writeTo (l : Lock) (p : FilePath) : OperationM Unit :=
  Operation.onDisk (Disk.writeAtomic p l.render)

end Lock

/-- What became of a lock that was to be written. -/
structure LockUpdate where
  path : FilePath
  diff : LockDiff
  written : Bool
deriving DecidableEq

/-- Write a lock into the directory of a project, unless it equals the one before it. -/
def Lock.update (directory : FilePath) (old : Option Lock) (new : Lock) :
    OperationM LockUpdate := do
  let path := directory.join fileName
  let diff := LockDiff.between old new
  if diff.isEmpty then return ⟨path, diff, false⟩
  new.writeTo path
  Operation.say "Locking" s!"{new.projects.length} project(s)"
  return ⟨path, diff, true⟩

end DepSolver
