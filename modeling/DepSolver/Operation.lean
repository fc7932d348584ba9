import DepSolver.Disk.Operation
import DepSolver.Failure
import DepSolver.Status

/-!
Operations that use the disk and tell their user what they do. An operation that fails keeps what it
changed and what it said before.
-/

namespace DepSolver

/-- The disk, and the status lines so far. -/
structure Surroundings where
  disk : FileTree
  status : List StatusLine
deriving DecidableEq, Inhabited

/-- An operation that may fail. -/
abbrev OperationM := ExceptT Failure (StateM Surroundings)

namespace Operation

/-- Print a status line. -/
def say (label message : String) : OperationM Unit :=
  modify fun s => { s with status := s.status ++ [⟨label, message⟩] }

/-- Print the messages under one label, one line each. -/
def sayAll (label : String) (messages : List String) : OperationM Unit :=
  modify fun s => { s with status := s.status ++ messages.map (⟨label, ·⟩) }

/-- Go on with a result, or fail. -/
def check {α : Type} : Except Failure α → OperationM α
  | .ok a => return a
  | .error e => throw e

/-- Look at the disk. -/
def inspect {α : Type} (f : FileTree → α) : OperationM α := return f (← get).disk

/-- Change the disk. -/
def change {α : Type} (x : StateM FileTree α) : OperationM α := do
  let s ← get
  let (a, disk) := x.run s.disk
  set { s with disk }
  return a

/-- Work on the disk; its errors are failures. -/
def onDisk {α : Type} (x : DiskM α) : OperationM α := do
  match ← change x.run with
  | .ok a => return a
  | .error e => throw (.disk e.message)

end Operation

end DepSolver
