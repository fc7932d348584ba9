import DepSolver.Source

/-!
Answers kept from a source. Only successful answers are kept, each under its own question, for as
long as the cache lives.
-/

namespace DepSolver

/-- The answers that were kept, newest first. -/
structure Cache where
  answers : List ((q : Query) × q.Value)

namespace Cache

def empty : Cache := ⟨[]⟩

instance : Inhabited Cache := ⟨empty⟩

/-- The answer to a question in a list of answers. -/
def find? (q : Query) : List ((q : Query) × q.Value) → Option q.Value
  | [] => none
  | ⟨q', v⟩ :: rest => if h : q' = q then some (h ▸ v) else find? q rest

/-- The answer that was kept for a question. -/
def get? (c : Cache) (q : Query) : Option q.Value := find? q c.answers

/-- Keep the answer to a question. -/
def put (c : Cache) (q : Query) (v : q.Value) : Cache := ⟨⟨q, v⟩ :: c.answers⟩

/-- Keep an answer if it is a successful one. -/
def keep (c : Cache) (q : Query) : q.Answer → Cache
  | .ok v => c.put q v
  | .error _ => c

def isTree : Query → Bool
  | .tree _ _ => true
  | _ => false

/-- The number of versions of which the packages were kept. -/
def treeCount (c : Cache) : Nat := (c.answers.filter fun x => isTree x.1).length

end Cache

end DepSolver
