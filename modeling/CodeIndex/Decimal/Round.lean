/-!
# Powers and rounded quotients

`twoTo n` and `tenTo n` are the powers of two and of ten. `divNearest n d` is the integer nearest
to `n / d`, an exact half going to the even neighbour; `divNearestAway` sends an exact half away
from zero.
-/

namespace CodeIndex.Decimal

/-- A power of two. -/
abbrev twoTo (n : Nat) : Nat := Nat.pow 2 n

/-- A power of ten. -/
abbrev tenTo (n : Nat) : Nat := Nat.pow 10 n

/-- The integer nearest to `n / d`; of two equally near ones the even one. -/
def divNearest (n d : Nat) : Nat :=
  let q := n / d
  let r := n % d
  if 2 * r < d then q
  else if d < 2 * r then q + 1
  else if q % 2 = 0 then q else q + 1

/-- The integer nearest to `n / d`; of two equally near ones the larger. -/
def divNearestAway (n d : Nat) : Nat :=
  (2 * n + d) / (2 * d)

end CodeIndex.Decimal
