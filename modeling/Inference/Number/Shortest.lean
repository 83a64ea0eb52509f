import Inference.Number.Binary

/-!
The fewest decimal digits that read back as a given binary number, and of those the nearest ones.
A number `m · 2 ^ q` owns the interval of reals that round to it. A grid of decimals `c · 10 ^ k`
is tried for one digit, then for two, and so on; of a grid only the two neighbours of the number
can be inside the interval and nearest.
-/

namespace Inference

-- A positive fraction, kept as numerator and denominator.
structure Fraction where
  num : Nat
  den : Nat

namespace Fraction

def ofPowers (c : Nat) (two ten : Int) : Fraction where
  num := c * Nat.pow 2 two.toNat * Nat.pow 10 ten.toNat
  den := Nat.pow 2 (-two).toNat * Nat.pow 10 (-ten).toNat

def lt (a b : Fraction) : Bool := a.num * b.den < b.num * a.den

def le (a b : Fraction) : Bool := a.num * b.den ≤ b.num * a.den

-- Twice the distance from a grid point `c` to a number is compared through `2 * num` and the point
-- halfway between `c` and `c + 1`.
def halfway (c : Nat) (ten : Int) : Fraction := ofPowers (2 * c + 1) (-1) ten

-- The number of whole units `unit` in `a`.
def units (a unit : Fraction) : Nat := (a.num * unit.den) / (a.den * unit.num)

-- The greatest `e` with `10 ^ e ≤ a`.
def log10 (a : Fraction) : Int :=
  let guess := (log2Ratio a.num a.den * 30103).fdiv 100000
  if (ofPowers 1 0 (guess + 1)).le a then guess + 1
  else if (ofPowers 1 0 guess).le a then guess
  else guess - 1

end Fraction

-- Decimal digits and the exponent of the first of them: `d.ddd · 10 ^ exponent`.
structure Digits where
  digits : List Char
  exponent : Int

-- The reals that round to a number: its bounds belong to it when its last bit is 0.
structure Interval where
  low : Fraction
  high : Fraction
  closed : Bool

namespace Interval

-- Below a power of two the neighbour is half as far away, except at the smallest exponent.
def around (p : Precision) (m : Nat) (q : Int) : Interval where
  low := if m = Nat.pow 2 p.fraction ∧ p.lowest < q then .ofPowers (4 * m - 1) (q - 2) 0
    else .ofPowers (4 * m - 2) (q - 2) 0
  high := .ofPowers (4 * m + 2) (q - 2) 0
  closed := m % 2 = 0

def contains (i : Interval) (a : Fraction) : Bool :=
  if i.closed then i.low.le a && a.le i.high else i.low.lt a && a.lt i.high

end Interval

-- Which of two neighbours that are equally near is taken.
inductive Tie where
  | even | up
deriving DecidableEq, Repr

-- The neighbours are `c` and `c + 1`.
def Tie.choose (c : Nat) : Tie → Nat
  | even => c + c % 2
  | up => c + 1

-- The nearest point of a grid that is inside the interval.
def nearestOnGrid (tie : Tie) (i : Interval) (value : Fraction) (ten : Int) : Option Nat :=
  let c := value.units (.ofPowers 1 0 ten)
  let below := 0 < c && i.contains (.ofPowers c 0 ten)
  let above := i.contains (.ofPowers (c + 1) 0 ten)
  let half := Fraction.halfway c ten
  if below && above then
    if value.lt half then some c
    else if half.lt value then some (c + 1)
    else some (tie.choose c)
  else if below then some c
  else if above then some (c + 1)
  else none

def trimZeros (c : Nat) : List Char :=
  ((Nat.toDigits 10 c).reverse.dropWhile (· = '0')).reverse

-- The first grid with a point in the interval, from `places` digits on.
def shortestFrom (tie : Tie) (i : Interval) (value : Fraction) (top : Int) : Nat → Nat → Digits
  | 0, _ => ⟨['0'], 0⟩
  | grids + 1, places =>
    let ten := top - places
    match nearestOnGrid tie i value ten with
    | some c => ⟨trimZeros c, ten + ((Nat.toDigits 10 c).length - 1)⟩
    | none => shortestFrom tie i value top grids (places + 1)

-- Seventeen digits tell all numbers of both precisions apart.
def shortest (tie : Tie) (p : Precision) (m : Nat) (q : Int) : Digits :=
  let value := Fraction.ofPowers m q 0
  shortestFrom tie (.around p m q) value value.log10 17 0

end Inference
