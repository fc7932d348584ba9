import DepSolver.Check
import DepSolver.Proofs.Except
import DepSolver.Proofs.Operation
import DepSolver.Proofs.Search.Session

/-!
Checks one after another. In a session that is never cancelled each project is solved as if it were
alone, whatever the session has kept from the projects before it.
-/

namespace DepSolver

namespace Check

variable {source : VersionSource} {session : Session}

/-- The report of a project that is solved in a session of its own, on the bare source. -/
def solveAlone (source : VersionSource) (searchLimit : Parameters → Nat)
    (input : String × Parameters) : CheckReport :=
  ⟨input.1, ((Session.start source searchLimit .never false).solve input.2).1⟩

theorem solveAlone_eq (source : VersionSource) (searchLimit : Parameters → Nat)
    (input : String × Parameters) : solveAlone source searchLimit input =
      ⟨input.1, (Search.solve input.2 (searchLimit input.2)).run source⟩ :=
  congrArg (CheckReport.mk input.1) (Session.isLasting_start source searchLimit false).solve_fst

theorem solveAll_eq_map (h : session.IsLasting source) (inputs : List (String × Parameters)) :
    solveAll session inputs = inputs.map (solveAlone source session.searchLimit) := by
  induction inputs generalizing session with
  | nil => rfl
  | cons input rest ih =>
      obtain ⟨name, p⟩ := input
      obtain ⟨after, hsolve, hlasting, hlimit⟩ := h.solve p
      rw [solveAll, hsolve, List.map_cons, solveAlone_eq, ← hlimit, ← ih hlasting]

theorem map_fst_of_gather {t : FileTree} {projects : List Project}
    {inputs : List (String × Parameters)} (h : gather t projects = .ok inputs) :
    inputs.map (·.1) = projects.map (·.importRoot.path) := by
  induction projects generalizing inputs with
  | nil =>
      cases h
      rfl
  | cons project rest ih =>
      rw [gather, List.mapM_cons] at h
      obtain ⟨first, hfirst, h⟩ := exists_of_bind_eq_ok h
      obtain ⟨others, hothers, h⟩ := exists_of_bind_eq_ok h
      obtain ⟨p, -, hp⟩ := exists_of_bind_eq_ok hfirst
      cases hp
      cases h
      rw [List.map_cons, List.map_cons, ih hothers]

theorem run_fst_eq {projects : List Project} {inputs : List (String × Parameters)}
    {w : Surroundings} (session : Session) (h : gather w.disk projects = .ok inputs) :
    ((run session projects).run.run w).1 = .ok (CheckReport.sort (solveAll session inputs)) := by
  rw [run, Operation.run_inspect_bind, h, Operation.check_ok_bind]
  dsimp only
  rw [summarize]
  split
  · rw [Operation.run_say_bind]
    rfl
  · rw [Operation.run_say_bind]
    rfl

end Check

namespace CheckReport

theorem sort_perm (l : List CheckReport) : (sort l).Perm l := Sorting.sort_perm _ l

theorem sort_sorted (l : List CheckReport) :
    (sort l).Pairwise fun x y => (compare x.name y.name).isLE :=
  @Sorting.sort_pairwise _ (Order.through CheckReport.name compare) _ l

theorem sort_eq_of_perm {l l' : List CheckReport} (h : l.Perm l')
    (hnames : (l.map (·.name)).Nodup) : sort l = sort l' := by
  refine List.Perm.eq_of_pairwise ?_ (sort_sorted l) (sort_sorted l')
    (((sort_perm l).trans h).trans (sort_perm l').symm)
  intro x y hx hy hle hge
  have hx := (sort_perm l).mem_iff.mp hx
  have hy := h.mem_iff.mpr ((sort_perm l').mem_iff.mp hy)
  have hname : x.name = y.name :=
    Std.LawfulEqCmp.eq_of_compare (Std.OrientedCmp.isLE_antisymm hle hge)
  exact List.inj_on_of_nodup_map hnames hx hy hname

end CheckReport

end DepSolver
