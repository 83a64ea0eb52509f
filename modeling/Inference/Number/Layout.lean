import Inference.Number.Shortest

/-!
How a binary number is written: which exponents are written out in full, and how the others are
marked. The digits are always the shortest ones, and of those the nearest.
-/

namespace Inference

structure Layout where
  tie : Tie
  -- The exponents of the first digit that are written in full.
  full : Int → Bool
  -- Whether a whole number written in full ends in a point and a zero.
  point : Bool
  nan : String
  -- The texts of infinity and, for true, of negative infinity.
  infinity : Bool → String

namespace Layout

def zeros (n : Nat) : List Char := List.replicate n '0'

-- The digits with a point after the one of exponent 0.
def inFull (point : Bool) (d : Digits) : List Char :=
  if d.exponent < 0 then
    '0' :: '.' :: zeros (-d.exponent - 1).toNat ++ d.digits
  else
    let whole := d.exponent.toNat + 1
    if whole < d.digits.length then
      d.digits.take whole ++ '.' :: d.digits.drop whole
    else
      d.digits ++ zeros (whole - d.digits.length) ++ if point then ['.', '0'] else []

-- One digit before the point, then the exponent with its sign.
def withExponent (d : Digits) : List Char :=
  let tail := d.digits.drop 1
  d.digits.take 1 ++ (if tail = [] then [] else '.' :: tail) ++
    'e' :: (if d.exponent < 0 then '-' else '+') :: Nat.toDigits 10 d.exponent.natAbs

def write {p : Precision} (l : Layout) (x : Binary p) : String :=
  match x.numeric with
  | .nan _ _ => l.nan
  | .infinite s => l.infinity s
  | .finite s m q =>
    let d := if m = 0 then ⟨['0'], 0⟩ else shortest l.tie p m q
    let body := if l.full d.exponent then inFull l.point d else withExponent d
    (if s then "-" else "") ++ String.ofList body

end Layout
end Inference
