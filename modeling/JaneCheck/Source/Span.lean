/-!
# Spans

A span is a range of character offsets of one file of a package. Offsets count
Unicode scalar values from 0 and `stop` is exclusive; files are numbered by
their place in the package.
-/

namespace JaneCheck

structure Span where
  start : Nat
  stop : Nat
  file : Nat
  deriving DecidableEq, Repr, Inhabited

namespace Span

/-- The smallest span that covers both, in the file of the first. -/
def merge (a b : Span) : Span :=
  ⟨min a.start b.start, max a.stop b.stop, a.file⟩

def length (s : Span) : Nat := s.stop - s.start

def isEmpty (s : Span) : Bool := s.start == s.stop

/-- Order by start, then stop, then file. -/
def le (a b : Span) : Bool :=
  a.start < b.start ||
    a.start == b.start && (a.stop < b.stop || a.stop == b.stop && a.file ≤ b.file)

end Span

end JaneCheck
