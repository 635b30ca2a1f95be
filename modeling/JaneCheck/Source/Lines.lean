/-!
# Rows and columns

`Lines` holds the offset of the first character of every line of a text.
`Lines.position` gives the row and column of an offset, both counted from 1.
-/

namespace JaneCheck

/-- Offsets of the first character of every line, in increasing order. -/
structure Lines where
  starts : List Nat
  deriving Repr

namespace Lines

/-- The offsets just after each line feed of `cs`, which begins at offset `i`. -/
def startsAfter (i : Nat) : List Char → List Nat
  | [] => []
  | c :: cs => if c = '\n' then (i + 1) :: startsAfter (i + 1) cs else startsAfter (i + 1) cs

def ofText (text : String) : Lines := ⟨0 :: startsAfter 0 text.toList⟩

/-- Row and column of an offset: the row is the number of lines that start at
or before it, and the column counts from the last of those. -/
def position (l : Lines) (offset : Nat) : Nat × Nat :=
  let passed := l.starts.takeWhile (· ≤ offset)
  (passed.length, offset - passed.getLastD 0 + 1)

end Lines

end JaneCheck
