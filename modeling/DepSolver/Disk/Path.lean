import DepSolver.Text.Basic

/-!
Paths of files. A path is a text; what it means is its list of components, in which doubled slashes
and dots inside the path do not count. Joining and cutting paths keeps their texts as written.
-/

namespace DepSolver

/-- A path as it is written. -/
structure FilePath where
  text : String
deriving DecidableEq, Inhabited

namespace FilePath

/-- A component of a path. -/
inductive Component
  | root
  /-- The dot at the start of a relative path. -/
  | here
  | up
  | name (s : String)
deriving DecidableEq

def Component.text : Component → String
  | root => "/"
  | here => "."
  | up => ".."
  | name s => s

/-- A segment between slashes that is no component. -/
def isVoid (segment : String) : Bool := segment.isEmpty || segment = "."

/-- The component of a segment, if it is one. -/
def component? (segment : String) : Option Component :=
  if isVoid segment then none else if segment = ".." then some .up else some (.name segment)

/-- What a path starts with, as a text: a slash, a dot, or nothing; and the segments after it. -/
def parts (p : FilePath) : String × List String :=
  match Text.split '/' p.text with
  | "" :: rest => if rest.isEmpty then ("", []) else ("/", rest)
  | "." :: rest => (".", "" :: rest)
  | segments => ("", segments)

def isAbsolute (p : FilePath) : Bool := p.parts.1 = "/"

/-- The components of a path. -/
def components (p : FilePath) : List Component :=
  let (start, segments) := p.parts
  let first := if start = "/" then [.root] else if start = "." then [.here] else []
  first ++ segments.filterMap component?

/-- Whether two texts name the same path. -/
def sameAs (p q : FilePath) : Bool := p.components = q.components

/-- The components of a path between slashes. -/
def slashed (p : FilePath) : String := "/".intercalate (p.components.map (·.text))

/-- A path from a base. An absolute path stays as it is. -/
def join (base p : FilePath) : FilePath :=
  if p.isAbsolute || base.text.isEmpty then p
  else if Text.endsWith "/" base.text then ⟨base.text ++ p.text⟩
  else ⟨base.text ++ "/" ++ p.text⟩

/-- The path of a start and of segments. -/
def ofParts (start : String) (segments : List String) : FilePath :=
  ⟨start ++ "/".intercalate segments⟩

/-- The text of a path before its last component. -/
def parent? (p : FilePath) : Option FilePath :=
  let (start, segments) := p.parts
  match segments.reverse.dropWhile isVoid with
  | _ :: rest => some (ofParts start (rest.dropWhile isVoid).reverse)
  | [] => if start = "." then some ⟨""⟩ else none

/-- A path and those before its last components, the shortest last: at most `fuel` of them, which
may be the number of components. The empty path and the root are none of them. -/
def ancestors : (fuel : Nat) → FilePath → List FilePath
  | 0, _ => []
  | fuel + 1, p =>
      match p.parent? with
      | some parent => p :: ancestors fuel parent
      | none => []

/-- The last component of a path, if it is a name. -/
def fileName? (p : FilePath) : Option String :=
  match p.components.getLast? with
  | some (.name s) => some s
  | _ => none

/-- The same path with another last component. -/
def withFileName (p : FilePath) (name : String) : FilePath :=
  let base := if p.fileName?.isSome then p.parent?.getD p else p
  base.join ⟨name⟩

/-- The components that lead from one place to another, after those in `done`. There are none that
lead out of a place whose name is not known. -/
def route (done : List Component) : List Component → List Component → Option (List Component)
  | target, [] => some (done ++ target)
  | [], _ :: base => route (done ++ [.up]) [] base
  | a :: target, b :: base =>
      if done.isEmpty && a = b then route done target base
      else if b = .here then route (done ++ [a]) target base
      else if b = .up then none
      else some (done ++ .up :: base.map (fun _ => .up) ++ a :: target)

/-- The path from a directory to a target. -/
def relativeTo (target base : FilePath) : Option FilePath :=
  if target.isAbsolute = base.isAbsolute then
    (route [] target.components base.components).map fun l =>
      l.foldl (fun p c => p.join ⟨c.text⟩) ⟨""⟩
  else if target.isAbsolute then some target
  else none

end FilePath

end DepSolver
