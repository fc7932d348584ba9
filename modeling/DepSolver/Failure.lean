/-!
The failures that an operation reports to its caller, by class.
-/

namespace DepSolver

/-- Why an operation failed. -/
inductive Failure
  /-- Reading or writing the disk failed. -/
  | disk (message : String)
  /-- A manifest, a constraint or a lock is malformed. -/
  | input (message : String)
  /-- No assignment of versions satisfies the constraints. -/
  | unsatisfiable (message : String)
  /-- The source of versions failed. -/
  | source (message : String)
  /-- A package that the solution needs could not be parsed. -/
  | unparsed (path message : String)
  /-- The operation was cancelled before it completed. -/
  | cancelled
  | other (message : String)
deriving DecidableEq

namespace Failure

def message : Failure → String
  | disk message => s!"I/O error: {message}"
  | input message => s!"Input error: {message}"
  | unsatisfiable message => s!"Dependency resolution failed: {message}"
  | source message => s!"Source error: {message}"
  | unparsed path message => s!"Package {path} could not be parsed: {message}"
  | cancelled => "Operation cancelled"
  | other message => message

/-- Advice for the user, for the failures that have some. -/
def help? : Failure → Option String
  | input _ => some "Check the declared constraints for syntax errors"
  | _ => none

end Failure

end DepSolver
