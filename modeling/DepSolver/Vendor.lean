import DepSolver.Disk.Operation

/-!
Vendor trees: symbolic links through which a project finds the local projects that it imports. Every
link is attempted, and the failures are collected.
-/

namespace DepSolver

/-- A link or a directory that could not be made. -/
structure VendorFailure where
  path : FilePath
  error : DiskError
deriving DecidableEq

protected def VendorFailure.toString (f : VendorFailure) : String :=
  s!"{f.path.text}: {f.error.message}"

instance : ToString VendorFailure := ⟨VendorFailure.toString⟩

/-- A member of a workspace: its import root, and its directory in that of the workspace. -/
structure WorkspaceMember where
  name : String
  path : FilePath
deriving DecidableEq, Inhabited

namespace Vendor

/-- Name the path that an error is about. -/
def blame {α : Type} (path : FilePath) (x : DiskM α) :
    ExceptT VendorFailure (StateM FileTree) α := do
  match ← (Disk.outcome x).run with
  | .ok (.ok a) => return a
  | .ok (.error e) | .error e => throw ⟨path, e⟩

/-- Make a link that leads to a target by a path relative to the directory of the link. A link that
does so already is left alone. -/
def linkInto (link target : FilePath) : ExceptT VendorFailure (StateM FileTree) Unit := do
  let some parent := link.parent? | throw ⟨link, .noParent⟩
  blame parent (Disk.ensureDirectory parent)
  let some relative := target.relativeTo parent | throw ⟨link, .noRelativePath target⟩
  let current := (← getThe FileTree).linkTarget? link
  if current.any (·.sameAs relative) then return
  blame link (Disk.makeLink relative link)

/-- Make links in order, and collect the failures. -/
def linkAll : List (FilePath × FilePath) → StateM FileTree (List VendorFailure)
  | [] => return []
  | (link, target) :: rest => do
      match ← (linkInto link target).run with
      | .ok () => linkAll rest
      | .error failure => return failure :: (← linkAll rest)

/-- The vendor directory of a project. -/
def directoryOf (project : FilePath) : FilePath := project.join ⟨"vendor"⟩

/-- The links of a project: an entry of its vendor directory for each local project. -/
def entryLinks (project : FilePath) (entries : Table String FilePath) :
    List (FilePath × FilePath) :=
  entries.entries.map fun (path, directory) => ((directoryOf project).join ⟨path⟩, directory)

def linkProjects (project : FilePath) (entries : Table String FilePath) :
    StateM FileTree (List VendorFailure) :=
  linkAll (entryLinks project entries)

/-- The links of a workspace: the vendor directory of every member, which leads to that of the
workspace, and an entry of that one, which leads to the member. -/
def memberLinks (workspace : FilePath) (members : List WorkspaceMember) :
    List (FilePath × FilePath) :=
  members.flatMap fun m =>
    let directory := workspace.join m.path
    [(directoryOf directory, directoryOf workspace),
      ((directoryOf workspace).join ⟨m.name⟩, directory)]

def linkMembers (workspace : FilePath) (members : List WorkspaceMember) :
    StateM FileTree (List VendorFailure) :=
  linkAll (memberLinks workspace members)

end Vendor

end DepSolver
