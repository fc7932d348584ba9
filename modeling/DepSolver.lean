import DepSolver.Check
import DepSolver.Config
import DepSolver.Constraint
import DepSolver.Constraint.Parser
import DepSolver.ConstraintSet
import DepSolver.Digest
import DepSolver.Disk.FileTree
import DepSolver.Disk.Operation
import DepSolver.Disk.Path
import DepSolver.Failure
import DepSolver.GoSource.Directory
import DepSolver.GoSource.Header
import DepSolver.GoSource.Walk
import DepSolver.Ignore
import DepSolver.Ignore.Glob
import DepSolver.Ignore.Glob.Expression
import DepSolver.Ignore.Glob.Matching
import DepSolver.Lock
import DepSolver.Lock.File
import DepSolver.Lock.Record
import DepSolver.Manifest
import DepSolver.Operation
import DepSolver.Order
import DepSolver.PackageTree
import DepSolver.PackageTree.Reach
import DepSolver.Project
import DepSolver.Project.Base
import DepSolver.Project.MultiRepo
import DepSolver.Project.Workspace
import DepSolver.ProjectRoot
import DepSolver.RangeSet
import DepSolver.Search.Conflict
import DepSolver.Search.Dialogue
import DepSolver.Search.Parameters
import DepSolver.Search.Session
import DepSolver.Search.Signal
import DepSolver.Search.Solver
import DepSolver.Search.State
import DepSolver.Semver.Basic
import DepSolver.Semver.Parser
import DepSolver.Semver.Requirement
import DepSolver.Solution
import DepSolver.Solution.Godeps
import DepSolver.Solution.Graph
import DepSolver.Solve
import DepSolver.SortedSet
import DepSolver.Sorting
import DepSolver.Source
import DepSolver.Source.Cache
import DepSolver.Status
import DepSolver.Table
import DepSolver.Text.Basic
import DepSolver.Text.Letter
import DepSolver.Text.Printable
import DepSolver.Text.Quoted
import DepSolver.Toml.Parser
import DepSolver.Toml.Printer
import DepSolver.Toml.Value
import DepSolver.Vendor
import DepSolver.Version
import DepSolver.Proofs.Check
import DepSolver.Proofs.Check.Parallel
import DepSolver.Proofs.Constraint
import DepSolver.Proofs.Constraint.Emptiness
import DepSolver.Proofs.Constraint.Matching
import DepSolver.Proofs.Constraint.Meet
import DepSolver.Proofs.Constraint.Reading
import DepSolver.Proofs.Constraint.Text
import DepSolver.Proofs.Constraint.Written
import DepSolver.Proofs.ConstraintSet
import DepSolver.Proofs.ConstraintSet.Aggregate
import DepSolver.Proofs.Dialogue
import DepSolver.Proofs.Dialogue.Stage
import DepSolver.Proofs.Disk.Operation
import DepSolver.Proofs.Except
import DepSolver.Proofs.Ignore
import DepSolver.Proofs.Lock
import DepSolver.Proofs.Lock.Diff
import DepSolver.Proofs.Lock.Rereading
import DepSolver.Proofs.Lock.Update
import DepSolver.Proofs.Operation
import DepSolver.Proofs.PackageTree.Build
import DepSolver.Proofs.PackageTree.Reach
import DepSolver.Proofs.PackageTree.Walk
import DepSolver.Proofs.ProjectRoot
import DepSolver.Proofs.RangeSet
import DepSolver.Proofs.RangeSet.Canonical
import DepSolver.Proofs.RangeSet.Lattice
import DepSolver.Proofs.Relation
import DepSolver.Proofs.Search.Caching
import DepSolver.Proofs.Search.Closure
import DepSolver.Proofs.Search.Completeness
import DepSolver.Proofs.Search.Constrained
import DepSolver.Proofs.Search.Course
import DepSolver.Proofs.Search.Decision
import DepSolver.Proofs.Search.Demand
import DepSolver.Proofs.Search.Digest
import DepSolver.Proofs.Search.Explanation
import DepSolver.Proofs.Search.Exploration
import DepSolver.Proofs.Search.Explored
import DepSolver.Proofs.Search.Fresh
import DepSolver.Proofs.Search.Hint
import DepSolver.Proofs.Search.Inputs
import DepSolver.Proofs.Search.Interchange
import DepSolver.Proofs.Search.Interruption
import DepSolver.Proofs.Search.Justification
import DepSolver.Proofs.Search.Limit
import DepSolver.Proofs.Search.Lockstep
import DepSolver.Proofs.Search.Loop
import DepSolver.Proofs.Search.Meeting
import DepSolver.Proofs.Search.Moves
import DepSolver.Proofs.Search.Next
import DepSolver.Proofs.Search.Occurrence
import DepSolver.Proofs.Search.Optimality
import DepSolver.Proofs.Search.Outcome
import DepSolver.Proofs.Search.Override
import DepSolver.Proofs.Search.Presentation
import DepSolver.Proofs.Search.Progress
import DepSolver.Proofs.Search.Provider
import DepSolver.Proofs.Search.Provision
import DepSolver.Proofs.Search.Record
import DepSolver.Proofs.Search.Relock
import DepSolver.Proofs.Search.Required
import DepSolver.Proofs.Search.Run
import DepSolver.Proofs.Search.Session
import DepSolver.Proofs.Search.SideBySide
import DepSolver.Proofs.Search.Soundness
import DepSolver.Proofs.Search.Stack
import DepSolver.Proofs.Search.State
import DepSolver.Proofs.Search.Termination
import DepSolver.Proofs.Search.Trace
import DepSolver.Proofs.Search.Visibility
import DepSolver.Proofs.Semver
import DepSolver.Proofs.Semver.Matching
import DepSolver.Proofs.Semver.Order
import DepSolver.Proofs.Semver.Parser
import DepSolver.Proofs.Semver.Reading
import DepSolver.Proofs.Semver.Text
import DepSolver.Proofs.Solution.Graph
import DepSolver.Proofs.Solution.Path
import DepSolver.Proofs.Solution.Tree
import DepSolver.Proofs.Solve
import DepSolver.Proofs.SortedSet
import DepSolver.Proofs.Source
import DepSolver.Proofs.Table
import DepSolver.Proofs.PackageTree.Composition
import DepSolver.Proofs.PackageTree.Merge
import DepSolver.Proofs.Sorting
import DepSolver.Proofs.Source.Listing
import DepSolver.Proofs.GoSource.Directory
import DepSolver.Proofs.GoSource.Header
import DepSolver.Proofs.GoSource.Walk
import DepSolver.Proofs.Source.Serving
import DepSolver.Proofs.Search.Origin
import DepSolver.Proofs.Search.Recorded
import DepSolver.Proofs.Vendor.Workspace
