/-!
Binary floating point numbers as bit patterns: one sign bit, an exponent field and a fraction field.
Values are decoded to `± m · 2 ^ q`, and every result is the nearest number of its precision, with
ties to the even pattern. The order of numbers is the order of an integer key.
-/

namespace Inference

structure Precision where
  fraction : Nat
  exponent : Nat
deriving DecidableEq

namespace Precision

def single : Precision := ⟨23, 8⟩

def double : Precision := ⟨52, 11⟩

variable (p : Precision)

def width : Nat := 1 + p.exponent + p.fraction

-- The power of two that belongs to the last fraction bit of the smallest numbers.
def lowest : Int := 2 - Nat.pow 2 (p.exponent - 1) - (p.fraction : Int)

-- The pattern of infinity: all exponent bits, and no fraction bit.
def infinity : Nat := (Nat.pow 2 p.exponent - 1) * Nat.pow 2 p.fraction

-- The fraction bit that marks a NaN as quiet.
def quiet : Nat := Nat.pow 2 (p.fraction - 1)

end Precision

structure Binary (p : Precision) where
  bits : BitVec p.width
deriving DecidableEq

abbrev Single := Binary .single

abbrev Double := Binary .double

-- What a pattern stands for: a finite number is `± m · 2 ^ q`.
inductive Numeric where
  | nan (negative : Bool) (payload : Nat)
  | infinite (negative : Bool)
  | finite (negative : Bool) (m : Nat) (q : Int)
deriving DecidableEq

-- The quotient rounded to the nearest integer, with ties to the even one.
def roundDiv (num den : Nat) : Nat :=
  let floor := num / den
  let twice := 2 * (num % den)
  if twice < den then floor
  else if den < twice then floor + 1
  else floor + floor % 2

-- The greatest `e` with `2 ^ e ≤ num / den`, for positive `num` and `den`.
def log2Ratio (num den : Nat) : Int :=
  let guess : Int := (num.log2 : Int) - (den.log2 : Int)
  if num * Nat.pow 2 (-guess).toNat < den * Nat.pow 2 guess.toNat then guess - 1 else guess

namespace Binary

variable {p : Precision}

def ofPattern (negative : Bool) (magnitude : Nat) : Binary p :=
  ⟨.ofNat _ ((if negative then Nat.pow 2 (p.exponent + p.fraction) else 0) + magnitude)⟩

-- The pattern without its sign bit.
def magnitude (x : Binary p) : Nat := x.bits.toNat % Nat.pow 2 (p.exponent + p.fraction)

def isNegative (x : Binary p) : Bool := Nat.pow 2 (p.exponent + p.fraction) ≤ x.bits.toNat

def isNaN (x : Binary p) : Bool := p.infinity < x.magnitude

def numeric (x : Binary p) : Numeric :=
  let field := x.magnitude / Nat.pow 2 p.fraction
  let fraction := x.magnitude % Nat.pow 2 p.fraction
  if p.infinity < x.magnitude then .nan x.isNegative fraction
  else if x.magnitude = p.infinity then .infinite x.isNegative
  else if field = 0 then .finite x.isNegative fraction p.lowest
  else .finite x.isNegative (Nat.pow 2 p.fraction + fraction) (p.lowest + (field - 1))

-- The number nearest to `± num / den`. The exponent field and the fraction are added up, so a
-- fraction that rounds up to the next power of two carries into the exponent.
def ofRatio (negative : Bool) (num den : Nat) : Binary p :=
  if num = 0 then ofPattern negative 0
  else
    let q := max p.lowest (log2Ratio num den - p.fraction)
    let m := roundDiv (num * Nat.pow 2 (-q).toNat) (den * Nat.pow 2 q.toNat)
    ofPattern negative (min p.infinity ((q - p.lowest).toNat * Nat.pow 2 p.fraction + m))

def ofScaled (negative : Bool) (m : Nat) (q : Int) : Binary p :=
  ofRatio negative (m * Nat.pow 2 q.toNat) (Nat.pow 2 (-q).toNat)

def ofNat (n : Nat) : Binary p := ofRatio false n 1

def ofInt (n : Int) : Binary p := ofRatio (n < 0) n.natAbs 1

-- The number nearest to `± digits · 10 ^ e`. Far outside the range of both precisions the power of
-- ten is not computed.
def ofDecimal (negative : Bool) (digits : Nat) (e : Int) : Binary p :=
  let top : Int := (Nat.toDigits 10 digits).length + e
  if digits = 0 ∨ top < -400 then ofPattern negative 0
  else if 400 < top then ofPattern negative p.infinity
  else ofRatio negative (digits * Nat.pow 10 e.toNat) (Nat.pow 10 (-e).toNat)

def neg (x : Binary p) : Binary p := ofPattern (!x.isNegative) x.magnitude

-- A NaN operand is passed on as a quiet one.
private def quieted (negative : Bool) (payload : Nat) : Binary p :=
  ofPattern negative (p.infinity + (payload ||| p.quiet))

private def invalid : Binary p := quieted true 0

def mul (x y : Binary p) : Binary p :=
  match x.numeric, y.numeric with
  | .nan s t, _ => quieted s t
  | _, .nan s t => quieted s t
  | .infinite s, .infinite t => ofPattern (s != t) p.infinity
  | .infinite s, .finite t m _ => if m = 0 then invalid else ofPattern (s != t) p.infinity
  | .finite s m _, .infinite t => if m = 0 then invalid else ofPattern (s != t) p.infinity
  | .finite s m q, .finite t n r => ofScaled (s != t) (m * n) (q + r)

def div (x y : Binary p) : Binary p :=
  match x.numeric, y.numeric with
  | .nan s t, _ => quieted s t
  | _, .nan s t => quieted s t
  | .infinite _, .infinite _ => invalid
  | .infinite s, .finite t _ _ => ofPattern (s != t) p.infinity
  | .finite s _ _, .infinite t => ofPattern (s != t) 0
  | .finite s m q, .finite t n r =>
    if n = 0 then if m = 0 then invalid else ofPattern (s != t) p.infinity
    else ofRatio (s != t) (m * Nat.pow 2 (q - r).toNat) (n * Nat.pow 2 (r - q).toNat)

-- The same number in another precision; the payload of a NaN is kept at its upper end.
def convert {r : Precision} (x : Binary p) : Binary r :=
  match x.numeric with
  | .nan s t => quieted s (t * Nat.pow 2 r.fraction / Nat.pow 2 p.fraction)
  | .infinite s => ofPattern s r.infinity
  | .finite s m q => ofScaled s m q

-- Both zeros have key 0.
def key (x : Binary p) : Int := if x.isNegative then -x.magnitude else x.magnitude

-- Comparisons with a NaN are false.
def lt (x y : Binary p) : Bool := !x.isNaN && !y.isNaN && x.key < y.key

def le (x y : Binary p) : Bool := !x.isNaN && !y.isNaN && x.key ≤ y.key

def same (x y : Binary p) : Bool := !x.isNaN && !y.isNaN && x.key = y.key

-- The integer part of a number above zero, at most `limit`; 0 for all else.
def truncate (limit : Nat) (x : Binary p) : Nat :=
  match x.numeric with
  | .finite false m q => min limit (m * Nat.pow 2 q.toNat / Nat.pow 2 (-q).toNat)
  | .infinite false => limit
  | _ => 0

instance : LT (Binary p) := ⟨fun x y => x.lt y⟩

instance : LE (Binary p) := ⟨fun x y => x.le y⟩

instance (x y : Binary p) : Decidable (x < y) := inferInstanceAs (Decidable (x.lt y = true))

instance (x y : Binary p) : Decidable (x ≤ y) := inferInstanceAs (Decidable (x.le y = true))

instance : Inhabited (Binary p) := ⟨ofPattern false 0⟩

end Binary
end Inference
