/-
Ranges of code points: how the character classes beyond ASCII are written
down. Every table of this library is a list of such ranges, in ascending
order; a class is the union of its ranges.
-/

namespace DocPages.Unicode

/-- A run of code points, `first` and `last` included. -/
structure CodeRange where
  first : Nat
  last : Nat
deriving Repr, DecidableEq

namespace CodeRange

def contains (r : CodeRange) (n : Nat) : Bool :=
  r.first ≤ n && n ≤ r.last

end CodeRange

/-- Membership of a character in the class that a table of ranges describes. -/
def inRanges (table : List CodeRange) (c : Char) : Bool :=
  table.any (·.contains c.toNat)

/-- ASCII characters are decided by rule and not by table. -/
def isAscii (c : Char) : Bool :=
  c.toNat < 0x80

end DocPages.Unicode
