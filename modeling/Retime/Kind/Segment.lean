/-! # Segments

A word is handled in segments of equal size, from its least significant bit on; the
last one may be shorter.
-/

namespace Retime

/-- A range of bits, given by its lowest position and its size. -/
structure Segment where
  low : Nat
  size : Nat
deriving DecidableEq, Repr

namespace Segment

/-- The highest position. -/
def high (g : Segment) : Nat :=
  g.low + g.size - 1

/-- The number of segments. -/
def count (width size : Nat) : Nat :=
  (width + size - 1) / size

/-- The segment at a position in the word. -/
def nth (width size : Nat) (i : Nat) : Segment where
  low := i * size
  size := min size (width - i * size)

/-- The segments of a word. -/
def ofWidth (width size : Nat) : List Segment :=
  (List.range (count width size)).map (Segment.nth width size)

end Segment

end Retime
