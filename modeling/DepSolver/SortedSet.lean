/-!
Finite sets in increasing order. Two sets with the same elements are equal.
-/

namespace DepSolver

/-- A finite set, held as its elements in increasing order. -/
structure SortedSet (α : Type) [Ord α] where
  toList : List α
  sorted : toList.Pairwise fun x y => compare x y = .lt
deriving DecidableEq

namespace SortedSet

variable {α : Type} [Ord α]

def empty : SortedSet α := ⟨[], .nil⟩

instance : Inhabited (SortedSet α) := ⟨empty⟩

/-- Whether a list in increasing order has an element. -/
def hasElement (a : α) : List α → Bool
  | [] => false
  | b :: rest =>
      match compare a b with
      | .lt => false
      | .eq => true
      | .gt => hasElement a rest

def contains (s : SortedSet α) (a : α) : Bool := hasElement a s.toList

def isEmpty (s : SortedSet α) : Bool := s.toList.isEmpty

/-- Put an element into a list in increasing order, unless it is there. -/
def place (a : α) : List α → List α
  | [] => [a]
  | b :: rest =>
      match compare a b with
      | .lt => a :: b :: rest
      | .eq => b :: rest
      | .gt => b :: place a rest

theorem mem_place {a x : α} {l : List α} (mem : x ∈ place a l) : x = a ∨ x ∈ l := by
  induction l with
  | nil => simpa [place] using mem
  | cons b rest ih =>
      simp only [place] at mem
      split at mem
      · simpa using mem
      · exact .inr mem
      · rcases List.mem_cons.1 mem with h | h
        · exact .inr (h ▸ List.mem_cons_self ..)
        · rcases ih h with h | h
          · exact .inl h
          · exact .inr (List.mem_cons_of_mem _ h)

theorem place_sorted [Std.TransOrd α] (a : α) {l : List α}
    (sorted : l.Pairwise fun x y => compare x y = .lt) :
    (place a l).Pairwise fun x y => compare x y = .lt := by
  induction l with
  | nil => simp [place]
  | cons b rest ih =>
      rw [List.pairwise_cons] at sorted
      simp only [place]
      split
      · rename_i lt
        refine List.pairwise_cons.2 ⟨fun x mem => ?_, List.pairwise_cons.2 sorted⟩
        rcases List.mem_cons.1 mem with rfl | mem
        · exact lt
        · exact Std.TransCmp.lt_trans lt (sorted.1 x mem)
      · exact List.pairwise_cons.2 sorted
      · rename_i gt
        refine List.pairwise_cons.2 ⟨fun x mem => ?_, ih sorted.2⟩
        rcases mem_place mem with rfl | mem
        · exact Std.OrientedCmp.gt_iff_lt.1 gt
        · exact sorted.1 x mem

def insert [Std.TransOrd α] (s : SortedSet α) (a : α) : SortedSet α :=
  ⟨place a s.toList, place_sorted a s.sorted⟩

/-- Put in every element of a list. -/
def insertAll [Std.TransOrd α] (s : SortedSet α) (l : List α) : SortedSet α :=
  l.foldl insert s

def ofList [Std.TransOrd α] (l : List α) : SortedSet α := empty.insertAll l

def union [Std.TransOrd α] (s t : SortedSet α) : SortedSet α := s.insertAll t.toList

def filter (s : SortedSet α) (keep : α → Bool) : SortedSet α :=
  ⟨s.toList.filter keep, s.sorted.filter _⟩

/-- The elements of `s` that `t` lacks. -/
def diff (s t : SortedSet α) : SortedSet α := s.filter fun a => !t.contains a

def erase (s : SortedSet α) (a : α) : SortedSet α := s.filter fun b => compare a b != .eq

end SortedSet

end DepSolver
