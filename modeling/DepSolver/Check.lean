import DepSolver.Project
import DepSolver.Search.Session
import DepSolver.Operation

/-!
Checking several projects: each is solved on its own, and nothing is written.
-/

namespace DepSolver

/-- The result of checking a project. -/
structure CheckReport where
  name : String
  result : Except SolveError Solution

namespace CheckReport

def isOk (r : CheckReport) : Bool := r.result.toOption.isSome

/-- Reports in order of the names. -/
def sort (l : List CheckReport) : List CheckReport :=
  Sorting.sort (Order.through CheckReport.name compare) l

end CheckReport

namespace Check

/-- The names and the inputs of projects; the first project whose inputs cannot be had is a
failure. -/
def gather (t : FileTree) (projects : List Project) : Except Failure (List (String × Parameters)) :=
  projects.mapM fun project => do return (project.importRoot.path, ← project.parameters t)

/-- Solve for each of the inputs in a session. -/
def solveAll : Session → List (String × Parameters) → List CheckReport
  | _, [] => []
  | session, (name, p) :: rest =>
      let (result, session) := session.solve p
      ⟨name, result⟩ :: solveAll session rest

/-- Say how many projects were checked, and how many failed. -/
def summarize (reports : List CheckReport) : OperationM Unit :=
  let failed := (reports.filter (!·.isOk)).length
  if failed = 0 then Operation.say "Checked" s!"{reports.length} member(s)"
  else Operation.say "Checked" s!"{failed} of {reports.length} member(s) failed"

/-- Check projects in a session. The reports come in order of the names. -/
def run (session : Session) (projects : List Project) : OperationM (List CheckReport) := do
  let inputs ← Operation.check (← Operation.inspect (gather · projects))
  let reports := CheckReport.sort (solveAll session inputs)
  summarize reports
  return reports

end Check

end DepSolver
