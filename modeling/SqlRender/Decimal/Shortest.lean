/-!
# Shortest decimals

The decimal with the fewest digits that reads back as a given double. A double `m * 2 ^ q` is what
every real in the interval between the midpoints to its two neighbours rounds to, ends included when
`m` is even. On the grid of the multiples of `10 ^ k` it is enough to try the two points next to the
double: if any point of the grid lies in the interval, one of these does.
-/
namespace SqlRender

/-- The number `digits * 10 ^ exponent`, with a sign of its own so that zero has two forms. -/
structure Decimal where
  negative : Bool
  digits : Nat
  exponent : Int
deriving DecidableEq

namespace Decimal

/-- A double in quarters of its last place: the double, the ends of its interval, and the exponent
of two of the unit. -/
structure Interval where
  low : Nat
  mid : Nat
  high : Nat
  closed : Bool
  unit : Int

def topBit : Nat := Nat.pow 2 52

/-- The interval of the positive double with the significand `m` and the exponent `q`. Below a power
of two the neighbours are half as far apart. -/
def Interval.ofDouble (m : Nat) (q : Int) : Interval where
  low := if m = topBit ∧ -1074 < q then 4 * m - 1 else 4 * m - 2
  mid := 4 * m
  high := 4 * m + 2
  closed := m % 2 == 0
  unit := q - 2

/-- The unit of the interval over the unit of the grid `10 ^ k`, as a fraction. -/
def Interval.scale (i : Interval) (k : Int) : Nat × Nat :=
  (Nat.pow 10 (-k).toNat * Nat.pow 2 i.unit.toNat, Nat.pow 10 k.toNat * Nat.pow 2 (-i.unit).toNat)

def Interval.holds (i : Interval) (c : Nat) (k : Int) : Bool :=
  let (num, den) := i.scale k
  if i.closed then i.low * num ≤ c * den && c * den ≤ i.high * num
  else i.low * num < c * den && c * den < i.high * num

/-- The point of the grid `10 ^ k` nearest to the double among those in the interval; of two that
are equally near, the even one. -/
def Interval.nearest? (i : Interval) (k : Int) : Option Nat :=
  let (num, den) := i.scale k
  let c := i.mid * num / den
  match i.holds c k, i.holds (c + 1) k with
  | true, true =>
    let rest := 2 * (i.mid * num % den)
    if rest < den ∨ (rest = den ∧ c % 2 = 0) then some c else some (c + 1)
  | true, false => some c
  | false, true => some (c + 1)
  | false, false => none

/-- The first grid, from coarse to fine, that has a point in the interval. -/
def Interval.shortest (i : Interval) (k : Int) : Nat → Nat × Int
  | 0 => ((i.nearest? k).getD 0, k)
  | n + 1 =>
    match i.nearest? k with
    | some c => (c, k)
    | none => i.shortest (k - 1) n

/-- The fewest digits that read back as the finite double with the given bits. The coarsest grid
tried is at least as coarse as the first digit, the finest lies below the last place of the double.
-/
def ofBits (bits : UInt64) : Decimal :=
  let negative := bits.toNat.testBit 63
  let field := bits.toNat / topBit % 2048
  let fraction := bits.toNat % topBit
  if field = 0 ∧ fraction = 0 then ⟨negative, 0, 0⟩
  else
    let m := if field = 0 then fraction else fraction + topBit
    let q : Int := ((if field = 0 then 1 else field : Nat) : Int) - 1075
    let (digits, exponent) := (Interval.ofDouble m q).shortest ((q + 53) * 30103 / 100000 + 1) 40
    ⟨negative, digits, exponent⟩

end Decimal

end SqlRender
