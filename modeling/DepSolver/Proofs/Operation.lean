import DepSolver.Operation
import DepSolver.Proofs.Except

/-!
Operations step by step: what is looked at, what is checked, and what is said.
-/

namespace DepSolver.Operation

variable {α β : Type}

theorem run_inspect_bind (f : FileTree → α) (k : α → OperationM β) (w : Surroundings) :
    (inspect f >>= k).run.run w = (k (f w.disk)).run.run w := rfl

theorem check_ok_bind (a : α) (k : α → OperationM β) : check (.ok a) >>= k = k a := rfl

theorem run_say_bind (label message : String) (k : Unit → OperationM β) (w : Surroundings) :
    (say label message >>= k).run.run w =
      (k ()).run.run { w with status := w.status ++ [⟨label, message⟩] } := rfl

theorem run_map (f : α → β) (x : OperationM α) (w : Surroundings) :
    (f <$> x).run.run w =
      match x.run.run w with
      | (.ok a, w') => (.ok (f a), w')
      | (.error e, w') => (.error e, w') := by
  rw [← bind_pure_comp, run_bind_eq]
  rcases x.run.run w with ⟨_ | a, w'⟩ <;> rfl

theorem run_onDisk (x : DiskM α) (w : Surroundings) :
    (onDisk x).run.run w =
      match x.run.run w.disk with
      | (.ok a, disk) => (.ok a, { w with disk })
      | (.error e, disk) => (.error (.disk e.message), { w with disk }) := by
  have hchange : (change x.run).run.run w =
      (.ok (x.run.run w.disk).1, { w with disk := (x.run.run w.disk).2 }) := rfl
  rw [onDisk, run_bind_eq, hchange]
  rcases x.run.run w.disk with ⟨_ | a, disk⟩ <;> rfl

end DepSolver.Operation
