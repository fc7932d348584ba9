import DepSolver.Solution
import DepSolver.Text.Basic

/-!
The Godeps export of a solution: a JSON file with an entry for each package, in order of the import
paths.
-/

namespace DepSolver

/-- A package in an export: its import path, the tag of its version if there is one, and the
revision. -/
structure GodepsEntry where
  importPath : String
  comment : String
  revision : String
deriving DecidableEq

namespace Godeps

/-- The entries of a solution. -/
def entries (s : Solution) : List GodepsEntry :=
  let all := s.projects.values.flatMap fun p =>
    let (revision, _, tag) := p.version.components
    p.packages.map fun package => ⟨p.root.join package, tag, revision⟩
  Sorting.sort (Order.through GodepsEntry.importPath compare) all

/-- A character inside a JSON string. -/
def escaped (c : Char) : String :=
  if c = '"' then "\\\""
  else if c = '\\' then "\\\\"
  else if c = '\x08' then "\\b"
  else if c = '\x0c' then "\\f"
  else if c = '\n' then "\\n"
  else if c = '\r' then "\\r"
  else if c = '\t' then "\\t"
  else if c.toNat < 0x20 then "\\u" ++ Text.hex 4 c.toNat
  else c.toString

/-- A text as a JSON string. -/
def quoted (s : String) : String := "\"" ++ String.join (s.toList.map escaped) ++ "\""

/-- The fields of a JSON object, each on its own line, indented by some tabs. -/
def renderFields (tabs : Nat) (fields : List (String × String)) : String :=
  let indent := String.ofList (List.replicate tabs '\t')
  ",\n".intercalate (fields.map fun (key, value) => indent ++ quoted key ++ ": " ++ value)

/-- An entry; a missing tag is left out. -/
def renderEntry (e : GodepsEntry) : String :=
  let comment := if e.comment.isEmpty then [] else [("Comment", quoted e.comment)]
  let fields := [("ImportPath", quoted e.importPath)] ++ comment ++ [("Rev", quoted e.revision)]
  "\t\t\x7b\n" ++ renderFields 3 fields ++ "\n\t\t\x7d"

def renderEntries (entries : List GodepsEntry) : String :=
  if entries.isEmpty then "[]" else "[\n" ++ ",\n".intercalate (entries.map renderEntry) ++ "\n\t]"

/-- The export of a solution. -/
def render (importRoot : ProjectRoot) (s : Solution) : String :=
  let fields := [("_Comment", quoted "GENERATED BY DEP, DO NOT EDIT"),
    ("ImportPath", quoted importRoot.path), ("Deps", renderEntries (entries s))]
  "\x7b\n" ++ renderFields 1 fields ++ "\n\x7d"

end Godeps

end DepSolver
