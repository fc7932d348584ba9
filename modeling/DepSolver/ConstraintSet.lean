import DepSolver.Manifest

/-!
The constraints of several manifests merged into one table. The constraints declared for one project
are intersected, so the order of the manifests does not matter. Projects whose constraints cannot
hold together are all reported at once.
-/

namespace DepSolver

/-- One manifest's constraint on a project. `origin` names the manifest. -/
structure Contribution where
  origin : String
  constraint : Constraint
  source : Option String
deriving DecidableEq, Inhabited

protected def Contribution.toString (c : Contribution) : String :=
  s!"{c.constraint} (from {c.origin})" ++ c.source.elim "" fun source => s!" [source {source}]"

instance : ToString Contribution := ⟨Contribution.toString⟩

/-- Fold the constraints of contributions into one. -/
def Contribution.interAll (l : List Contribution) : Constraint :=
  Constraint.interAll (l.map (·.constraint))

/-- The merged constraint on a project, with all that contributed to it. -/
structure MergedConstraint where
  constraint : Constraint
  source : Option String
  contributions : List Contribution
deriving DecidableEq, Inhabited

/-- Whether a constraint holds beside others or in their place. -/
inductive ConstraintKind
  | dependency
  | override
deriving DecidableEq

def ConstraintKind.name : ConstraintKind → String
  | dependency => "constraint"
  | override => "override"

/-- Why contributions cannot hold together. -/
inductive Clash
  /-- No version satisfies every contribution. -/
  | disjoint
  /-- Contributions name different sources. -/
  | sources
deriving DecidableEq

/-- A project whose contributions cannot hold together. -/
structure ConstraintClash where
  root : ProjectRoot
  kind : ConstraintKind
  reason : Clash
  contributions : List Contribution
deriving DecidableEq

protected def ConstraintClash.toString (c : ConstraintClash) : String :=
  let what := match c.reason with
    | .disjoint => "no version satisfies every"
    | .sources => "conflicting sources in"
  s!"{c.root.path}: {what} {c.kind.name}" ++
    String.join (c.contributions.map fun x => s!"\n    {x}")

instance : ToString ConstraintClash := ⟨ConstraintClash.toString⟩

/-- The clashes for which constraints cannot be merged. -/
structure AggregateError where
  clashes : List ConstraintClash
deriving DecidableEq

namespace AggregateError

def message (e : AggregateError) : String :=
  "constraints are unsatisfiable before solving:\n" ++
    "\n".intercalate (e.clashes.map fun c => s!"  {c}")

def help : String := "relax one of the listed constraints so that they overlap"

end AggregateError

/-- The merged constraints of the project that is solved. -/
structure ConstraintSet where
  dependencies : Table ProjectRoot MergedConstraint
  overrides : Table ProjectRoot MergedConstraint
deriving DecidableEq

namespace ConstraintSet

def empty : ConstraintSet := ⟨.empty, .empty⟩

instance : Inhabited ConstraintSet := ⟨empty⟩

/-- The constraint placed on a project: its override if there is one, else the merged constraint of
the manifests. -/
def effective? (s : ConstraintSet) (root : ProjectRoot) : Option MergedConstraint :=
  (s.overrides.get? root).or (s.dependencies.get? root)

def isEmpty (s : ConstraintSet) : Bool := s.dependencies.isEmpty && s.overrides.isEmpty

/-- The declarations of one manifest. -/
def ofManifest (origin : String) (m : Manifest) : ConstraintSet :=
  let convert (t : Table ProjectRoot Declaration) :=
    t.map fun _ d =>
      MergedConstraint.mk d.constraint d.source [⟨origin, d.constraint, d.source⟩]
  ⟨convert m.constraints, convert m.overrides⟩

end ConstraintSet

/-- What manifests have contributed so far, in the order in which it was added. -/
structure Contributions where
  dependencies : Table ProjectRoot (List Contribution)
  overrides : Table ProjectRoot (List Contribution)
deriving DecidableEq

namespace Contributions

def empty : Contributions := ⟨.empty, .empty⟩

/-- Add a contribution to a table. -/
def push (t : Table ProjectRoot (List Contribution)) (origin : String) (root : ProjectRoot)
    (d : Declaration) : Table ProjectRoot (List Contribution) :=
  t.update root [] (· ++ [⟨origin, d.constraint, d.source⟩])

def addDependency (b : Contributions) (origin : String) (root : ProjectRoot) (d : Declaration) :
    Contributions :=
  { b with dependencies := push b.dependencies origin root d }

def addOverride (b : Contributions) (origin : String) (root : ProjectRoot) (d : Declaration) :
    Contributions :=
  { b with overrides := push b.overrides origin root d }

/-- Add every constraint and override of a manifest. -/
def addManifest (b : Contributions) (origin : String) (m : Manifest) : Contributions :=
  let b := m.constraints.entries.foldl (fun b x => b.addDependency origin x.1 x.2) b
  m.overrides.entries.foldl (fun b x => b.addOverride origin x.1 x.2) b

/-- The different sources that contributions name, in order. -/
def sourcesOf (l : List Contribution) : List String :=
  (SortedSet.ofList (l.filterMap (·.source))).toList

/-- Why contributions cannot hold together, if they cannot. -/
def clash? (l : List Contribution) : Option Clash :=
  if (Contribution.interAll l).isNothing then some .disjoint
  else if (sourcesOf l).length > 1 then some .sources
  else none

/-- The clashes in a table, in the order of the projects. -/
def clashes (kind : ConstraintKind) (t : Table ProjectRoot (List Contribution)) :
    List ConstraintClash :=
  t.entries.filterMap fun x => (clash? x.2).map fun reason => ⟨x.1, kind, reason, x.2⟩

/-- Merge the contributions to each project. -/
def mergeTable (t : Table ProjectRoot (List Contribution)) : Table ProjectRoot MergedConstraint :=
  t.map fun _ l => ⟨Contribution.interAll l, (sourcesOf l).head?, l⟩

/-- Merge all contributions, or report every project whose contributions cannot hold together. -/
def build (b : Contributions) : Except AggregateError ConstraintSet :=
  match clashes .dependency b.dependencies ++ clashes .override b.overrides with
  | [] => .ok ⟨mergeTable b.dependencies, mergeTable b.overrides⟩
  | found => .error ⟨found⟩

end Contributions

/-- Merge the declarations of manifests, each given with the name of its origin. -/
def ConstraintSet.aggregate (manifests : List (String × Manifest)) :
    Except AggregateError ConstraintSet :=
  (manifests.foldl (fun b x => b.addManifest x.1 x.2) Contributions.empty).build

end DepSolver
