import DepSolver.Search.Conflict
import DepSolver.Search.Parameters
import DepSolver.Solution

/-!
What a search has settled so far: the versions that it selected, and what is needed of which
project. Meeting a demand either extends this or is a conflict.
-/

namespace DepSolver

/-- A version that was selected, and the packages that are used from it. -/
structure Selection where
  version : Version
  packages : SortedSet String
  tree : PackageTree
  manifest : Manifest
deriving DecidableEq

/-- Packages that a project needs from another one. The importer `none` is the project that is
solved. -/
structure Demand where
  importer : Option ProjectRoot
  target : ProjectRoot
  packages : SortedSet String
deriving DecidableEq

/-- The state of a search. -/
structure SearchState where
  selected : Table ProjectRoot Selection
  /-- The packages needed from each project, selected or not. -/
  required : Table ProjectRoot (SortedSet String)
  /-- The constraints that manifests of selected projects place on what these import. -/
  contributions : Table ProjectRoot (List Contribution)
  imports : Table (Option ProjectRoot) (SortedSet ProjectRoot)
deriving DecidableEq

namespace SearchState

def empty : SearchState := ⟨.empty, .empty, .empty, .empty⟩

instance : Inhabited SearchState := ⟨empty⟩

/-- The projects that are needed and not yet selected. -/
def pending (s : SearchState) : List ProjectRoot :=
  s.required.keys.filter fun root => !s.selected.contains root

/-- Everything that constrains a project. An override replaces all the rest. -/
def contributionsTo (s : SearchState) (p : Parameters) (root : ProjectRoot) : List Contribution :=
  match p.constraints.overrides.get? root with
  | some c => c.contributions
  | none =>
      ((p.constraints.dependencies.get? root).elim [] (·.contributions)) ++
        (s.contributions.get? root).getD []

/-- The constraint on a project. -/
def constraintOn (s : SearchState) (p : Parameters) (root : ProjectRoot) : Constraint :=
  match p.constraints.overrides.get? root with
  | some c => c.constraint
  | none => Contribution.interAll (s.contributionsTo p root)

/-- A conflict over a project in this state. -/
def conflict (s : SearchState) (p : Parameters) (root : ProjectRoot) (reason : ConflictReason) :
    ProjectConflict :=
  ⟨root, reason, s.contributionsTo p root⟩

/-- The constraint that a selected project places on another one. -/
def declared? (s : SearchState) (importer target : ProjectRoot) : Option Contribution := do
  let selection ← s.selected.get? importer
  let d ← selection.manifest.constraints.get? target
  return ⟨s!"{importer.path}@{selection.version}", d.constraint, d.source⟩

/-- Record that a project is imported, with what the importer's manifest says about it. A manifest
contributes once to each project. -/
def record (s : SearchState) (d : Demand) : SearchState :=
  let contributions :=
    match d.importer.bind (s.declared? · d.target) with
    | some c =>
        s.contributions.update d.target [] fun l =>
          if l.any (·.origin = c.origin) then l else l ++ [c]
    | none => s.contributions
  { s with
    contributions
    imports := s.imports.update d.importer .empty (·.insert d.target)
    required := s.required.update d.target .empty (·.union d.packages) }

/-- Meet a demand. The result has the imports for which a selected project now needs further
projects. -/
def meet (s : SearchState) (p : Parameters) (d : Demand) :
    Except ProjectConflict (SearchState × SortedSet String) :=
  let s := s.record d
  let constraint := s.constraintOn p d.target
  if constraint.isNothing then .error (s.conflict p d.target .emptyIntersection)
  else
    match s.selected.get? d.target with
    | none => .ok (s, .empty)
    | some selection =>
        if !constraint.satisfiedBy selection.version then
          .error (s.conflict p d.target (.versionRejected selection.version))
        else
          let fresh := d.packages.diff selection.packages
          if fresh.isEmpty then .ok (s, .empty)
          else
            match selection.tree.reach fresh.toList p.ignored false with
            | .error e => .error (s.conflict p d.target (.ofReachFailure selection.version e))
            | .ok reach =>
                let selection := { selection with
                  packages := selection.packages.union reach.internal }
                .ok ({ s with selected := s.selected.insert d.target selection }, reach.external)

/-- Select a version of a project. The result has the imports of the packages that are needed. -/
def select (s : SearchState) (p : Parameters) (root : ProjectRoot) (version : Version)
    (tree : PackageTree) (manifest : Manifest) :
    Except ProjectConflict (SearchState × SortedSet String) :=
  let required := (s.required.get? root).getD .empty
  match tree.reach required.toList p.ignored false with
  | .error e => .error (s.conflict p root (.ofReachFailure version e))
  | .ok reach =>
      let selection := ⟨version, reach.internal, tree, manifest⟩
      .ok ({ s with selected := s.selected.insert root selection }, reach.external)

/-- A bound on the number of demands that can still arise among the selected projects: whenever one
of them needs further packages, it has at most as many demands as its tree has imports. -/
def room (s : SearchState) : Nat :=
  (s.selected.values.map fun x => x.tree.packages.size * x.tree.importCount).foldr (· + ·) 0

/-- The versions of a project to try, in order: the one to prefer if it satisfies the constraint,
then all others that do. -/
def candidates (s : SearchState) (p : Parameters) (root : ProjectRoot) (listed : List Version) :
    List Version :=
  let constraint := s.constraintOn p root
  match (p.lockedVersion? root).filter constraint.satisfiedBy with
  | some pinned =>
      pinned :: listed.filter fun v => constraint.satisfiedBy v && !pinned.sameRelease v
  | none => listed.filter constraint.satisfiedBy

/-- The solution of a state in which no project is pending. -/
def toSolution (s : SearchState) (p : Parameters) (attempts : Nat) : Solution where
  projects := s.selected.map fun root x =>
    { LockedProject.ofPackages root x.version (x.packages.toList.filterMap root.relative) with
      source := (p.constraints.effective? root).bind (·.source) }
  imports := s.imports
  inputsDigest := p.inputsDigest
  attempts

end SearchState

end DepSolver
