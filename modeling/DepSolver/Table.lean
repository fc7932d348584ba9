/-!
Finite maps in increasing key order. Two tables with the same entries are equal, and every walk
over a table visits its keys in order.
-/

namespace DepSolver

/-- A finite map, held as its entries in increasing key order. -/
structure Table (κ : Type) (α : Type) [Ord κ] where
  entries : List (κ × α)
  sorted : entries.Pairwise fun x y => compare x.1 y.1 = .lt
deriving DecidableEq

namespace Table

variable {κ : Type} {α β : Type} [Ord κ]

/-- The table without entries. -/
def empty : Table κ α := ⟨[], .nil⟩

instance : Inhabited (Table κ α) := ⟨empty⟩

/-- The value at a key, in a list of entries. -/
def find? (k : κ) : List (κ × α) → Option α
  | [] => none
  | (k', a) :: rest =>
      match compare k k' with
      | .lt => none
      | .eq => some a
      | .gt => find? k rest

/-- The value at a key. -/
def get? (t : Table κ α) (k : κ) : Option α := find? k t.entries

def contains (t : Table κ α) (k : κ) : Bool := (t.get? k).isSome

def keys (t : Table κ α) : List κ := t.entries.map (·.1)

def values (t : Table κ α) : List α := t.entries.map (·.2)

def size (t : Table κ α) : Nat := t.entries.length

def isEmpty (t : Table κ α) : Bool := t.entries.isEmpty

/-- Put a value at a key, in a list of entries in key order. -/
def place (k : κ) (a : α) : List (κ × α) → List (κ × α)
  | [] => [(k, a)]
  | (k', b) :: rest =>
      match compare k k' with
      | .lt => (k, a) :: (k', b) :: rest
      | .eq => (k, a) :: rest
      | .gt => (k', b) :: place k a rest

theorem mem_place {k : κ} {a : α} {l : List (κ × α)} {x : κ × α} (mem : x ∈ place k a l) :
    x = (k, a) ∨ x ∈ l := by
  induction l with
  | nil => simpa [place] using mem
  | cons head rest ih =>
      simp only [place] at mem
      split at mem
      · simpa using mem
      · rcases List.mem_cons.1 mem with h | h
        · exact .inl h
        · exact .inr (List.mem_cons_of_mem _ h)
      · rcases List.mem_cons.1 mem with h | h
        · exact .inr (h ▸ List.mem_cons_self ..)
        · rcases ih h with h | h
          · exact .inl h
          · exact .inr (List.mem_cons_of_mem _ h)

theorem place_sorted [Std.TransOrd κ] (k : κ) (a : α) {l : List (κ × α)}
    (sorted : l.Pairwise fun x y => compare x.1 y.1 = .lt) :
    (place k a l).Pairwise fun x y => compare x.1 y.1 = .lt := by
  induction l with
  | nil => simp [place]
  | cons head rest ih =>
      obtain ⟨k', b⟩ := head
      rw [List.pairwise_cons] at sorted
      simp only [place]
      split
      · rename_i lt
        refine List.pairwise_cons.2 ⟨fun x mem => ?_, List.pairwise_cons.2 sorted⟩
        rcases List.mem_cons.1 mem with rfl | mem
        · exact lt
        · exact Std.TransCmp.lt_trans lt (sorted.1 x mem)
      · rename_i eq
        refine List.pairwise_cons.2 ⟨fun x mem => ?_, sorted.2⟩
        exact Std.TransCmp.lt_of_eq_of_lt eq (sorted.1 x mem)
      · rename_i gt
        refine List.pairwise_cons.2 ⟨fun x mem => ?_, ih sorted.2⟩
        rcases mem_place mem with rfl | mem
        · exact Std.OrientedCmp.gt_iff_lt.1 gt
        · exact sorted.1 x mem

/-- Put a value at a key, in place of the value that was there. -/
def insert [Std.TransOrd κ] (t : Table κ α) (k : κ) (a : α) : Table κ α :=
  ⟨place k a t.entries, place_sorted k a t.sorted⟩

/-- The table of a list of entries; a later entry replaces an earlier one of the same key. -/
def ofList [Std.TransOrd κ] (l : List (κ × α)) : Table κ α :=
  l.foldl (fun t x => t.insert x.1 x.2) empty

/-- Put in every entry of another table, which wins where both have a key. -/
def extend [Std.TransOrd κ] (t u : Table κ α) : Table κ α :=
  u.entries.foldl (fun t x => t.insert x.1 x.2) t

/-- Keep the entries that satisfy a test. -/
def filter (t : Table κ α) (keep : κ → α → Bool) : Table κ α :=
  ⟨t.entries.filter fun x => keep x.1 x.2, t.sorted.filter _⟩

def erase (t : Table κ α) (k : κ) : Table κ α := t.filter fun k' _ => compare k k' != .eq

/-- Apply a function to every value. -/
def map (t : Table κ α) (f : κ → α → β) : Table κ β :=
  ⟨t.entries.map fun x => (x.1, f x.1 x.2), by
    rw [List.pairwise_map]
    exact t.sorted⟩

/-- Change the value at a key, starting from `first` where the key is new. -/
def update [Std.TransOrd κ] (t : Table κ α) (k : κ) (first : α) (f : α → α) : Table κ α :=
  t.insert k (f ((t.get? k).getD first))

theorem find?_place_self [Std.ReflOrd κ] (k : κ) (a : α) (l : List (κ × α)) :
    find? k (place k a l) = some a := by
  induction l with
  | nil => simp [place, find?]
  | cons head rest ih =>
      simp only [place]
      split
      · simp [find?]
      · simp [find?]
      · rename_i gt
        simp [find?, gt, ih]

@[simp] theorem get?_insert_self [Std.TransOrd κ] (t : Table κ α) (k : κ) (a : α) :
    (t.insert k a).get? k = some a :=
  find?_place_self k a t.entries

@[simp] theorem get?_empty (k : κ) : (empty : Table κ α).get? k = none := rfl

end Table

end DepSolver
