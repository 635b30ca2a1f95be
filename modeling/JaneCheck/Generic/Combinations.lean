import JaneCheck.Ty

/-!
# Instantiations on record

The lists of type arguments that a generic definition is used with, each once
and in the order of discovery.
-/

namespace JaneCheck

structure Combinations where
  list : List (List Ty) := []

namespace Combinations

def contains (c : Combinations) (types : List Ty) : Bool := c.list.any (· == types)

/-- Records a list of type arguments unless it is known. -/
def insert (c : Combinations) (types : List Ty) : Combinations :=
  if c.contains types then c else ⟨c.list ++ [types]⟩

def size (c : Combinations) : Nat := c.list.length

def isEmpty (c : Combinations) : Bool := c.list.isEmpty

end Combinations

end JaneCheck
