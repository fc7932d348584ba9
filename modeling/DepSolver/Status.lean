/-!
Status lines: what an operation tells its user while it works.
-/

namespace DepSolver

/-- A message under a label. -/
structure StatusLine where
  label : String
  message : String
deriving DecidableEq, Inhabited

/-- The text of a line, in which the label ends in the twelfth column unless it is longer. -/
def StatusLine.render (l : StatusLine) : String :=
  .ofList (List.replicate (12 - l.label.length) ' ') ++ l.label ++ " " ++ l.message

end DepSolver
