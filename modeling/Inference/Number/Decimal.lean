import Inference.Number.Binary

/-!
Decimals as they are written: digits, with a point among them or none.
-/

namespace Inference

-- All digits as one number, and how many of them stand after the point.
structure Decimal where
  digits : Nat
  places : Nat
deriving DecidableEq

namespace Decimal

-- There is a digit on one side of the point at least.
def ofParts? (whole fraction : List Char) : Option Decimal :=
  let digits := whole ++ fraction
  if digits ≠ [] ∧ digits.all Char.isDigit then
    some ⟨Nat.ofDigitChars 10 digits 0, fraction.length⟩
  else none

def ofText? (s : List Char) : Option Decimal :=
  match s.splitOn '.' with
  | [whole] => ofParts? whole []
  | [whole, fraction] => ofParts? whole fraction
  | _ => none

def nearest {p : Precision} (d : Decimal) : Binary p := .ofDecimal false d.digits (-d.places)

end Decimal
end Inference
