import Inference.Number.Binary

/-!
Number literals of JSON, and the number that a literal stands for. A literal without fraction and
exponent that fits 64 bits is that integer. Any other one is a double: as many of its digits as fit
an unsigned 64-bit integer are rounded to a double, which is then multiplied or divided by a power
of ten.
-/

namespace Inference.Json

structure Numeral where
  negative : Bool
  whole : List Nat
  fraction : List Nat
  -- The sign of the exponent, true for minus, and its digits.
  exponent : Option (Bool × List Nat)

inductive Amount where
  | int (n : Int)
  | float (x : Double)

namespace Numeral

def digit? (c : Char) : Option Nat := if c.isDigit then some (c.toNat - 48) else none

def digits : List Char → List Nat × List Char
  | [] => ([], [])
  | c :: s =>
    match digit? c with
    | some d => let (ds, r) := digits s; (d :: ds, r)
    | none => ([], c :: s)

-- No zero stands before another digit.
def readWhole (s : List Char) : Option (List Nat × List Char) :=
  match digits s with
  | ([], _) => none
  | (0 :: _ :: _, _) => none
  | (ds, r) => some (ds, r)

def readFraction : List Char → Option (List Nat × List Char)
  | '.' :: s =>
    match digits s with
    | ([], _) => none
    | (ds, r) => some (ds, r)
  | s => some ([], s)

def readSign : List Char → Bool × List Char
  | '-' :: s => (true, s)
  | '+' :: s => (false, s)
  | s => (false, s)

def readExponent (s : List Char) : Option (Option (Bool × List Nat) × List Char) :=
  match s with
  | c :: s' =>
    if c = 'e' ∨ c = 'E' then
      let (sign, s) := readSign s'
      match digits s with
      | ([], _) => none
      | (ds, r) => some (some (sign, ds), r)
    else some (none, s)
  | [] => some (none, [])

def read (s : List Char) : Option (Numeral × List Char) := do
  let (negative, s) := match s with
    | '-' :: r => (true, r)
    | _ => (false, s)
  let (whole, s) ← readWhole s
  let (fraction, s) ← readFraction s
  let (exponent, s) ← readExponent s
  return (⟨negative, whole, fraction, exponent⟩, s)

-- Appends digits to a number while it stays below the limit; the digits that are left over.
def gather (limit : Nat) (n : Nat) : List Nat → Nat × List Nat
  | [] => (n, [])
  | d :: ds => if n * 10 + d < limit then gather limit (n * 10 + d) ds else (n, d :: ds)

def pow10 (k : Nat) : Double := .ofDecimal false 1 k

def isFinite (x : Double) : Bool := x.magnitude < Precision.double.infinity

-- One multiplication or division by a power of ten, after divisions by `1e308` where the exponent
-- is below every power of ten. There is no number above the finite ones.
def scale (x : Double) (e : Int) : Option Double :=
  if e.natAbs ≤ 308 then
    let y := if 0 ≤ e then x.mul (pow10 e.natAbs) else x.div (pow10 e.natAbs)
    if isFinite y then some y else none
  else if x.magnitude = 0 then some x
  else if h : 0 ≤ e then none
  else scale (x.div (pow10 308)) (e + 308)
termination_by (-e).toNat
decreasing_by omega

def signed (negative : Bool) (x : Double) : Double := if negative then x.neg else x

-- An exponent has at most 31 bits; beyond them the number is 0 or out of range.
def float? (negative : Bool) (n : Nat) (e : Int) : Option (Bool × List Nat) → Option Double
  | none => (scale (.ofNat n) e).map (signed negative)
  | some (minus, ds) =>
    match gather (Nat.pow 2 31) 0 ds with
    | (k, []) =>
      let e := if minus then e - k else e + k
      (scale (.ofNat n) (max (-Nat.pow 2 31) (min (Nat.pow 2 31 - 1) e))).map (signed negative)
    | _ => if n ≠ 0 ∧ !minus then none else some (signed negative (.ofNat 0))

def amount? (l : Numeral) : Option Amount :=
  let (n, left) := gather (Nat.pow 2 64) 0 l.whole
  if l.fraction = [] ∧ l.exponent = none ∧ left = [] then
    if !l.negative then some (.int n)
    else if n = 0 ∨ Nat.pow 2 63 < n then some (.float (.neg (.ofNat n)))
    else some (.int (-n))
  else
    let (n, unread) := gather (Nat.pow 2 64) n l.fraction
    let e : Int := left.length - (l.fraction.length - unread.length : Nat)
    (float? l.negative n e l.exponent).map .float

end Numeral
end Inference.Json
