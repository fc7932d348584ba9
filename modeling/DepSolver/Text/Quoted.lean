import DepSolver.Text.Printable
import DepSolver.Text.Basic

/-!
A character in single quotes, as error texts show it.
-/

namespace DepSolver.Text

/-- A character between single quotes. Tabs, line ends, quotes and backslashes are escaped, and a
character without a picture of its own is shown by its number. -/
def quoted (c : Char) : String :=
  let shown :=
    if c = '\x00' then "\\0"
    else if c = '\t' then "\\t"
    else if c = '\r' then "\\r"
    else if c = '\n' then "\\n"
    else if c = '\'' then "\\'"
    else if c = '\\' then "\\\\"
    else if isShown c then c.toString
    else "\\u\x7b" ++ hex 1 c.toNat ++ "\x7d"
  "'" ++ shown ++ "'"

end DepSolver.Text
