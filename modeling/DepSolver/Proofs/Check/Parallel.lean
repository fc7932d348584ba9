import DepSolver.Proofs.Check
import DepSolver.Proofs.Dialogue.Stage
import DepSolver.Proofs.PackageTree.Build
import DepSolver.Proofs.Search.Run
import Mathlib.Algebra.BigOperators.Group.Multiset.Basic

/-!
Checks side by side. Several solves go on at once, each step of one between any steps of the others,
and they may share a cache that others use as well. Whatever the order of the steps, each project
gets the report that it gets alone.
-/

namespace DepSolver

namespace Dialogue.Stage

variable {α : Type} {source : VersionSource} {cache cache' : Option Cache} {stage stage' : Stage α}

/-- A step of a dialogue that goes on behind a cache, or on the bare source. A question is put to the
source if no answer to it is kept, and its answer is kept when it comes. -/
inductive Advances (source : VersionSource) :
    Option Cache → Stage α → Option Cache → Stage α → Prop
  | pass {cache : Option Cache} {next : Dialogue α} :
      Advances source cache (.ready (.poll next)) cache (.ready next)
  | reuse {cache : Option Cache} {q : Query} {next : q.Answer → Dialogue α} {v : q.Value}
      (hkept : cache.bind (·.get? q) = some v) :
      Advances source cache (.ready (.ask q next)) cache (.ready (next (.ok v)))
  | put {cache : Option Cache} {q : Query} {next : q.Answer → Dialogue α}
      (hkept : cache.bind (·.get? q) = none) :
      Advances source cache (.ready (.ask q next)) cache (.awaiting q next)
  | answer {cache : Option Cache} {q : Query} {next : q.Answer → Dialogue α} :
      Advances source cache (.awaiting q next)
        (cache.map (·.keep q (source q))) (.ready (next (source q)))

theorem source_eq_of_kept {q : Query} {v : q.Value} (hcache : ∀ c ∈ cache, Recalls source c)
    (hkept : cache.bind (·.get? q) = some v) : source q = .ok v := by
  obtain ⟨c, hc, hget⟩ := Option.bind_eq_some_iff.mp hkept
  exact hcache c hc q v hget

theorem Advances.run_eq (h : Advances source cache stage cache' stage')
    (hcache : ∀ c ∈ cache, Recalls source c) : stage'.run source = stage.run source := by
  cases h with
  | pass => rfl
  | reuse hkept => rw [run, run, Dialogue.run, source_eq_of_kept hcache hkept]
  | put => rfl
  | answer => rfl

theorem Advances.stepCount_lt (h : Advances source cache stage cache' stage')
    (hcache : ∀ c ∈ cache, Recalls source c) : stage'.stepCount source < stage.stepCount source := by
  cases h with
  | pass => exact Nat.lt_succ_self _
  | reuse hkept =>
      rw [stepCount, stepCount, Dialogue.stepCount, source_eq_of_kept hcache hkept]
      omega
  | put => exact Nat.lt_succ_self _
  | answer => exact Nat.lt_succ_self _

theorem Advances.recalls (h : Advances source cache stage cache' stage')
    (hcache : ∀ c ∈ cache, Recalls source c) : ∀ c ∈ cache', Recalls source c := by
  cases h with
  | pass => exact hcache
  | reuse => exact hcache
  | put => exact hcache
  | answer => exact recalls_of_mem_map_keep hcache _

theorem exists_advances (source : VersionSource) (cache : Option Cache) (stage : Stage α) :
    (∃ a, stage = .ready (.done a)) ∨ ∃ cache' stage', Advances source cache stage cache' stage' := by
  match stage with
  | .ready (.done a) => exact .inl ⟨a, rfl⟩
  | .ready (.poll next) => exact .inr ⟨_, _, .pass⟩
  | .ready (.ask q next) =>
      cases hkept : cache.bind (·.get? q) with
      | some v => exact .inr ⟨_, _, .reuse hkept⟩
      | none => exact .inr ⟨_, _, .put hkept⟩
  | .awaiting q next => exact .inr ⟨_, _, .answer⟩

end Dialogue.Stage

namespace Check

open Dialogue (Stage)
open Search (chainSource)

/-- A solve that goes on: the name of its project, and how far the search has come. -/
structure Solving where
  name : String
  stage : Stage (Except SolveError Solution)

/-- A check that goes on: the cache that its solves share, if there is one; the projects that wait,
the solves that go on, the reports of those that have ended, and the reports that were collected, in
the order in which they were. -/
structure Pool where
  cache : Option Cache
  waiting : Multiset (String × Parameters)
  solving : Multiset Solving
  ended : Multiset CheckReport
  collected : List CheckReport

namespace Pool

variable {source : VersionSource} {searchLimit : Parameters → Nat} {parallel n : Nat}
  {pool next first : Pool}

/-- A check that is to begin. -/
def start (cache : Option Cache) (inputs : List (String × Parameters)) : Pool :=
  ⟨cache, inputs, 0, 0, []⟩

/-- All reports are collected. -/
def IsOver (pool : Pool) : Prop := pool.waiting = 0 ∧ pool.solving = 0 ∧ pool.ended = 0

/-- A step of a check. A project that waits is solved once fewer than `parallel` solves go on; even
if `parallel` is zero, one may. -/
inductive Step (source : VersionSource) (searchLimit : Parameters → Nat) (parallel : Nat) :
    Pool → Pool → Prop
  | enter {cache : Option Cache} {name : String} {p : Parameters}
      {waiting : Multiset (String × Parameters)} {solving : Multiset Solving}
      {ended : Multiset CheckReport} {collected : List CheckReport}
      (hfree : solving.card < max parallel 1) :
      Step source searchLimit parallel
        ⟨cache, (name, p) ::ₘ waiting, solving, ended, collected⟩
        ⟨cache, waiting, ⟨name, .ready (Search.solve p (searchLimit p))⟩ ::ₘ solving, ended,
          collected⟩
  | advance {cache cache' : Option Cache} {name : String}
      {stage stage' : Stage (Except SolveError Solution)}
      {waiting : Multiset (String × Parameters)} {solving : Multiset Solving}
      {ended : Multiset CheckReport} {collected : List CheckReport}
      (h : stage.Advances source cache cache' stage') :
      Step source searchLimit parallel
        ⟨cache, waiting, ⟨name, stage⟩ ::ₘ solving, ended, collected⟩
        ⟨cache', waiting, ⟨name, stage'⟩ ::ₘ solving, ended, collected⟩
  | finish {cache : Option Cache} {name : String} {result : Except SolveError Solution}
      {waiting : Multiset (String × Parameters)} {solving : Multiset Solving}
      {ended : Multiset CheckReport} {collected : List CheckReport} :
      Step source searchLimit parallel
        ⟨cache, waiting, ⟨name, .ready (.done result)⟩ ::ₘ solving, ended, collected⟩
        ⟨cache, waiting, solving, ⟨name, result⟩ ::ₘ ended, collected⟩
  | collect {cache : Option Cache} {report : CheckReport}
      {waiting : Multiset (String × Parameters)} {solving : Multiset Solving}
      {ended : Multiset CheckReport} {collected : List CheckReport} :
      Step source searchLimit parallel
        ⟨cache, waiting, solving, report ::ₘ ended, collected⟩
        ⟨cache, waiting, solving, ended, collected ++ [report]⟩

/-- A number of steps. Between them, others who share the cache may get answers, which are kept. -/
inductive Run (source : VersionSource) (searchLimit : Parameters → Nat) (parallel : Nat)
    (first : Pool) : Nat → Pool → Prop
  | refl : Run source searchLimit parallel first 0 first
  | step {n : Nat} {pool next : Pool} (h : Run source searchLimit parallel first n pool)
      (hstep : Step source searchLimit parallel pool next) :
      Run source searchLimit parallel first (n + 1) next
  | keep {n : Nat} {pool : Pool} (h : Run source searchLimit parallel first n pool) (q : Query) :
      Run source searchLimit parallel first n
        { pool with cache := pool.cache.map (·.keep q (source q)) }

/-! ### The reports that are due -/

/-- The reports that a check owes, has to collect or has collected. -/
def due (source : VersionSource) (searchLimit : Parameters → Nat) (pool : Pool) :
    Multiset CheckReport :=
  pool.waiting.map (solveAlone source searchLimit) +
    pool.solving.map (fun x => ⟨x.name, x.stage.run source⟩) + pool.ended +
    Multiset.ofList pool.collected

/-- A bound on the steps that are left. -/
def stepCount (source : VersionSource) (searchLimit : Parameters → Nat) (pool : Pool) : Nat :=
  (pool.waiting.map fun x =>
      (Search.solve x.2 (searchLimit x.2)).stepCount source + 3).sum +
    (pool.solving.map fun x => x.stage.stepCount source + 2).sum + pool.ended.card

/-- The cache holds answers of the source. -/
def IsTruthful (source : VersionSource) (pool : Pool) : Prop :=
  ∀ c ∈ pool.cache, Dialogue.Recalls source c

/-- No step loses a report, adds one or changes one. -/
theorem Step.due_eq (h : Step source searchLimit parallel pool next)
    (htruthful : pool.IsTruthful source) :
    next.due source searchLimit = pool.due source searchLimit := by
  cases h with
  | enter hfree =>
      simp only [due, Multiset.map_cons, solveAlone_eq, Stage.run, Multiset.cons_add,
        Multiset.add_cons]
  | advance hstage =>
      simp only [due, Multiset.map_cons, hstage.run_eq htruthful]
  | finish =>
      simp only [due, Multiset.map_cons, Stage.run, Dialogue.run, Multiset.cons_add,
        Multiset.add_cons]
  | @collect cache report waiting solving ended collected =>
      have hcollected : Multiset.ofList (collected ++ [report]) = report ::ₘ .ofList collected :=
        Multiset.coe_eq_coe.mpr (List.perm_append_singleton report collected)
      simp only [due, hcollected, Multiset.cons_add, Multiset.add_cons]

theorem Step.stepCount_lt (h : Step source searchLimit parallel pool next)
    (htruthful : pool.IsTruthful source) :
    next.stepCount source searchLimit < pool.stepCount source searchLimit := by
  cases h with
  | enter hfree =>
      simp only [stepCount, Multiset.map_cons, Multiset.sum_cons, Stage.stepCount]
      omega
  | advance hstage =>
      have hlt := hstage.stepCount_lt htruthful
      simp only [stepCount, Multiset.map_cons, Multiset.sum_cons]
      omega
  | finish =>
      simp only [stepCount, Multiset.map_cons, Multiset.sum_cons, Multiset.card_cons]
      omega
  | collect =>
      simp only [stepCount, Multiset.card_cons]
      omega

theorem Step.isTruthful (h : Step source searchLimit parallel pool next)
    (htruthful : pool.IsTruthful source) : next.IsTruthful source := by
  cases h with
  | enter => exact htruthful
  | advance hstage => exact hstage.recalls htruthful
  | finish => exact htruthful
  | collect => exact htruthful

/-! ### What holds throughout a check -/

theorem IsTruthful.keep (h : pool.IsTruthful source) (q : Query) : IsTruthful source
    { pool with cache := pool.cache.map (·.keep q (source q)) } :=
  Dialogue.recalls_of_mem_map_keep h q

/-- Throughout a check the same reports are due, and every step is one of those that were left. -/
theorem Run.invariant (h : Run source searchLimit parallel first n pool)
    (htruthful : first.IsTruthful source) :
    pool.IsTruthful source ∧ pool.due source searchLimit = first.due source searchLimit ∧
      n + pool.stepCount source searchLimit ≤ first.stepCount source searchLimit := by
  induction h with
  | refl => exact ⟨htruthful, rfl, (Nat.zero_add _).le⟩
  | step _ hstep ih =>
      obtain ⟨hpool, hdue, hcount⟩ := ih
      have hlt := hstep.stepCount_lt hpool
      exact ⟨hstep.isTruthful hpool, (hstep.due_eq hpool).trans hdue, by omega⟩
  | keep _ q ih => exact ⟨ih.1.keep q, ih.2⟩

theorem isOver_or_exists_step (source : VersionSource) (searchLimit : Parameters → Nat)
    (parallel : Nat) (pool : Pool) :
    pool.IsOver ∨ ∃ next, Step source searchLimit parallel pool next := by
  obtain ⟨cache, waiting, solving, ended, collected⟩ := pool
  induction ended using Multiset.induction_on with
  | cons report ended => exact .inr ⟨_, .collect⟩
  | empty =>
      induction solving using Multiset.induction_on with
      | cons x solving =>
          obtain ⟨name, stage⟩ := x
          rcases stage.exists_advances source cache with ⟨result, rfl⟩ | ⟨cache', stage', h⟩
          · exact .inr ⟨_, .finish⟩
          · exact .inr ⟨_, .advance h⟩
      | empty =>
          induction waiting using Multiset.induction_on with
          | cons x waiting =>
              refine .inr ⟨_, .enter ?_⟩
              rw [Multiset.card_zero]
              exact lt_max_of_lt_right Nat.zero_lt_one
          | empty => exact .inl ⟨rfl, rfl, rfl⟩

theorem Run.exists_isOver {n : Nat} {pool : Pool}
    (h : Run source searchLimit parallel first n pool) (htruthful : first.IsTruthful source) :
    ∃ m last, Run source searchLimit parallel first m last ∧ last.IsOver := by
  rcases isOver_or_exists_step source searchLimit parallel pool with hover | ⟨next, hstep⟩
  · exact ⟨n, pool, h, hover⟩
  · exact (h.step hstep).exists_isOver htruthful
termination_by pool.stepCount source searchLimit
decreasing_by exact hstep.stepCount_lt (h.invariant htruthful).1

private theorem due_start (cache : Option Cache) (inputs : List (String × Parameters)) :
    (start cache inputs).due source searchLimit =
      .ofList (inputs.map (solveAlone source searchLimit)) := by
  simp [due, start]

theorem IsOver.due_eq (h : pool.IsOver) :
    pool.due source searchLimit = .ofList pool.collected := by
  obtain ⟨hwaiting, hsolving, hended⟩ := h
  simp [due, hwaiting, hsolving, hended]

/-! ### Two projects that import a third one -/

/-- A disk with one source file, which imports `a.io`. -/
def importingDisk : FileTree := .ofMainFile (.text "package main\nimport \"a.io\"\n")

/-- Two projects on that disk that take `a.io` from its branch `main`. -/
def importingProjects : List Project :=
  let manifest := Search.takingBranch ⟨"a.io"⟩ "main"
  [.base ⟨⟨"."⟩, ⟨"work.io"⟩, manifest, none, .standard⟩,
    .base ⟨⟨"."⟩, ⟨"left.io"⟩, manifest, none, .standard⟩]

/-- The first answer of `chainSource` to either of them. -/
def answered : Cache := Cache.empty.keep (.root "a.io") (chainSource (.root "a.io"))

private theorem exists_gather_importingProjects :
    ∃ inputs, gather importingDisk importingProjects = .ok inputs := by
  have hwork : PackageTree.build importingDisk ⟨"."⟩ "work.io" .standard =
      .ok ((PackageTree.ofRoot "work.io").insertPackage ⟨"work.io", "main", ["a.io"], []⟩) :=
    PackageTree.build_of_isFlat (FileTree.isFlat_ofMainFile _) (by decide +kernel)
  have hleft : PackageTree.build importingDisk ⟨"."⟩ "left.io" .standard =
      .ok ((PackageTree.ofRoot "left.io").insertPackage ⟨"left.io", "main", ["a.io"], []⟩) :=
    PackageTree.build_of_isFlat (FileTree.isFlat_ofMainFile _) (by decide +kernel)
  simp only [exists_eq_ok_iff_isOk, gather, importingProjects, List.mapM_cons, Project.parameters,
    Project.packageTree, BaseProject.packageTree, hwork, hleft]
  decide +kernel

/-! ### What a check comes to -/

/-- The reports of a check in order of their names: there is one for each project, it is the one
that the project gets alone, and if no two projects have the same name then the reports are those of
a check one after another. -/
structure ReportsAlone (source : VersionSource) (searchLimit : Parameters → Nat)
    (projects : List Project) (inputs : List (String × Parameters)) (w : Surroundings)
    (reports : List CheckReport) : Prop where
  names : (reports.map (·.name)).Perm (projects.map (·.importRoot.path))
  sorted : reports.Pairwise fun x y => (compare x.name y.name).isLE
  perm : reports.Perm (inputs.map (solveAlone source searchLimit))
  unique : (projects.map (·.importRoot.path)).Nodup → ∀ cached,
    ((Check.run (.start source searchLimit .never cached) projects).run.run w).1 = .ok reports

/-- Whatever the order of the steps, a check of projects whose inputs can be had ends, and each
project gets the report that it gets alone. -/
theorem reportsAlone_of_run {projects : List Project} {inputs : List (String × Parameters)}
    {w : Surroundings} {cache : Option Cache} (hgather : gather w.disk projects = .ok inputs)
    (hcache : ∀ c ∈ cache, Dialogue.Recalls source c)
    (hrun : Run source searchLimit parallel (start cache inputs) n pool) :
    n ≤ (start cache inputs).stepCount source searchLimit ∧
      (pool.IsOver ∨ ∃ next, Step source searchLimit parallel pool next) ∧
      (pool.IsOver →
        ReportsAlone source searchLimit projects inputs w (CheckReport.sort pool.collected)) := by
  obtain ⟨-, hdue, hcount⟩ := hrun.invariant hcache
  refine ⟨by omega, isOver_or_exists_step source searchLimit parallel pool, fun hover => ?_⟩
  rw [hover.due_eq, due_start, Multiset.coe_eq_coe] at hdue
  have hnames : (pool.collected.map (·.name)).Perm (projects.map (·.importRoot.path)) := by
    rw [← map_fst_of_gather hgather]
    refine (hdue.map _).trans ?_
    rw [List.map_map]
    exact .refl _
  refine ⟨((CheckReport.sort_perm _).map _).trans hnames, CheckReport.sort_sorted _,
    (CheckReport.sort_perm _).trans hdue, fun hdistinct cached => ?_⟩
  rw [run_fst_eq _ hgather, solveAll_eq_map (Session.isLasting_start source searchLimit cached),
    CheckReport.sort_eq_of_perm hdue (hnames.nodup_iff.mpr hdistinct)]
  rfl

/-- Two projects share a cache that has an answer of `chainSource`. -/
theorem reportsAlone_importingProjects :
    ∃ (inputs : List (String × Parameters)) (n : Nat) (pool : Pool),
      gather importingDisk importingProjects = .ok inputs ∧
      Run chainSource (fun _ => 2) 2 (start (some answered) inputs) n pool ∧ pool.IsOver ∧
      ReportsAlone chainSource (fun _ => 2) importingProjects inputs ⟨importingDisk, []⟩
        (CheckReport.sort pool.collected) := by
  obtain ⟨inputs, hgather⟩ := exists_gather_importingProjects
  have hcache : ∀ c ∈ some answered, Dialogue.Recalls chainSource c := by
    rintro c ⟨⟩
    exact (Dialogue.recalls_empty chainSource).keep (.root "a.io")
  have hfirst : Run chainSource (fun _ => 2) 2 (start (some answered) inputs) 0
      (start (some answered) inputs) := .refl
  obtain ⟨n, pool, hrun, hover⟩ := hfirst.exists_isOver hcache
  obtain ⟨-, -, hreports⟩ := reportsAlone_of_run (w := ⟨importingDisk, []⟩) hgather hcache hrun
  exact ⟨inputs, n, pool, hgather, hrun, hover, hreports hover⟩

end Pool

end Check

end DepSolver
