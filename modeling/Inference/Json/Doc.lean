import Inference.Json.Numeral

/-!
JSON texts as trees. Reading checks the grammar alone: a literal that follows the grammar and still
has no value, such as a number out of range or a text with an unpaired surrogate, is kept as a
literal without a value, so that it only matters where its value is asked for.
-/

namespace Inference.Json

inductive Doc where
  | null
  | bool (b : Bool)
  | num (n : Option Amount)
  | str (s : Option String)
  | arr (items : List Doc)
  | obj (fields : List (Option String × Doc))

namespace Doc

def skip : List Char → List Char
  | [] => []
  | c :: s => if c = ' ' ∨ c = '\n' ∨ c = '\t' ∨ c = '\r' then skip s else c :: s

def hex? (c : Char) : Option Nat :=
  if c.isDigit then some (c.toNat - 48)
  else if 'a' ≤ c ∧ c ≤ 'f' then some (c.toNat - 87)
  else if 'A' ≤ c ∧ c ≤ 'F' then some (c.toNat - 55)
  else none

def unit? (a b c d : Char) : Option Nat := do
  return (((← hex? a) * 16 + (← hex? b)) * 16 + (← hex? c)) * 16 + (← hex? d)

def escape? : Char → Option Nat
  | '"' => some 0x22
  | '\\' => some 0x5C
  | '/' => some 0x2F
  | 'b' => some 8
  | 'f' => some 12
  | 'n' => some 10
  | 'r' => some 13
  | 't' => some 9
  | _ => none

-- The code units of a text up to its closing quote, latest first.
def units (acc : List Nat) : List Char → Option (List Nat × List Char)
  | '"' :: s => some (acc, s)
  | '\\' :: 'u' :: a :: b :: c :: d :: s =>
    match unit? a b c d with
    | some n => units (n :: acc) s
    | none => none
  | '\\' :: e :: s =>
    match escape? e with
    | some n => units (n :: acc) s
    | none => none
  | c :: s => if c.toNat < 0x20 then none else units (c.toNat :: acc) s
  | [] => none

-- Joins the surrogate pairs of a text given backwards; none for a surrogate without its partner.
def join (acc : List Char) : List Nat → Option (List Char)
  | [] => some acc
  | n :: ns =>
    if 0xDC00 ≤ n ∧ n < 0xE000 then
      match ns with
      | m :: ns =>
        if 0xD800 ≤ m ∧ m < 0xDC00 then
          join (.ofNat (0x10000 + (m - 0xD800) * 0x400 + (n - 0xDC00)) :: acc) ns
        else none
      | [] => none
    else if 0xD800 ≤ n ∧ n < 0xDC00 then none
    else join (.ofNat n :: acc) ns

-- The text after its opening quote.
def text (s : List Char) : Option (Option String × List Char) :=
  (units [] s).map fun (ns, r) => ((join [] ns).map String.ofList, r)

mutual

def value : Nat → List Char → Option (Doc × List Char)
  | 0, _ => none
  | n + 1, s =>
    match skip s with
    | 'n' :: 'u' :: 'l' :: 'l' :: r => some (null, r)
    | 't' :: 'r' :: 'u' :: 'e' :: r => some (bool true, r)
    | 'f' :: 'a' :: 'l' :: 's' :: 'e' :: r => some (bool false, r)
    | '"' :: r => (text r).map fun (t, r) => (str t, r)
    | '[' :: r =>
      match skip r with
      | ']' :: r => some (arr [], r)
      | _ => items n [] r
    | '{' :: r =>
      match skip r with
      | '}' :: r => some (obj [], r)
      | _ => fields n [] r
    | r => (Numeral.read r).map fun (l, r) => (num l.amount?, r)

def items : Nat → List Doc → List Char → Option (Doc × List Char)
  | 0, _, _ => none
  | n + 1, acc, s =>
    match value n s with
    | none => none
    | some (d, r) =>
      match skip r with
      | ',' :: r => items n (d :: acc) r
      | ']' :: r => some (arr (d :: acc).reverse, r)
      | _ => none

def fields : Nat → List (Option String × Doc) → List Char → Option (Doc × List Char)
  | 0, _, _ => none
  | n + 1, acc, s =>
    match skip s with
    | '"' :: r =>
      match text r with
      | none => none
      | some (k, r) =>
        match skip r with
        | ':' :: r =>
          match value n r with
          | none => none
          | some (d, r) =>
            match skip r with
            | ',' :: r => fields n ((k, d) :: acc) r
            | '}' :: r => some (obj ((k, d) :: acc).reverse, r)
            | _ => none
        | _ => none
    | _ => none

end

-- The whole text is one value, with blanks around it.
def read? (s : List Char) : Option Doc :=
  match value (2 * s.length + 2) s with
  | some (d, r) => if skip r = [] then some d else none
  | none => none

def ofString? (s : String) : Option Doc := read? s.toList

end Doc
end Inference.Json
