/-!
Comparisons through a key.
-/

namespace DepSolver.Order

/-- Compare two values by their keys. -/
def through {α β : Type} (key : α → β) (cmp : β → β → Ordering) (x y : α) : Ordering :=
  cmp (key x) (key y)

instance {α β : Type} (key : α → β) (cmp : β → β → Ordering) [Std.TransCmp cmp] :
    Std.TransCmp (through key cmp) where
  eq_swap {_ _} := @Std.OrientedCmp.eq_swap β cmp _ _ _
  isLE_trans {_ _ _} := @Std.TransCmp.isLE_trans β cmp _ _ _ _

end DepSolver.Order
