import DepSolver.Text.Basic

/-!
TOML values, and the reading of the shapes that a program expects of them.
-/

namespace DepSolver

/-- A TOML value. Of a float and of a date or time only the text is kept. -/
inductive Toml
  | string (s : String)
  | integer (n : Int)
  | float (text : String)
  | boolean (b : Bool)
  | datetime (text : String)
  | array (items : List Toml)
  | table (entries : List (String × Toml))
deriving Inhabited

namespace Toml

def string? : Toml → Option String
  | string s => some s
  | _ => none

def boolean? : Toml → Option Bool
  | boolean b => some b
  | _ => none

def array? : Toml → Option (List Toml)
  | array items => some items
  | _ => none

/-- An integer from 0 to `max`. -/
def natural? (max : Nat) : Toml → Option Nat
  | integer (.ofNat n) => if n ≤ max then some n else none
  | _ => none

/-- One of some words, given as a string or as the only key of a table, whose value is an empty
table or an empty array. -/
def word? (words : List String) : Toml → Option String
  | string s => if words.contains s then some s else none
  | table [(key, table [])] | table [(key, array [])] =>
      if words.contains key then some key else none
  | _ => none

/-- The values of a record's fields. A record is a table, in which other keys do not matter, or an
array of the fields in their order. A date or time counts as a table without any of the fields. -/
def fields? (names : List String) : Toml → Option (List (Option Toml))
  | table entries => some (names.map fun name => entries.lookup name)
  | array items => some ((List.range names.length).map fun i => items[i]?)
  | datetime _ => some (names.map fun _ => none)
  | _ => none

/-- A field that may be missing and must have the right shape otherwise. -/
def optional {α : Type} (read : Toml → Option α) : Option Toml → Option (Option α)
  | none => some none
  | some v => (read v).map some

end Toml

end DepSolver
