import Inference.Json.Basic
import Inference.Number.Layout

/-!
JSON texts as they are written: in one line, or over several lines with an indent of two blanks. A
page is a value whose numbers already have their texts, since a single and a double are written
differently.
-/

namespace Inference

-- Doubles are written in full for exponents from -5 to 15.
def doubleLayout : Layout where
  tie := .even
  full e := -5 ≤ e && e ≤ 15
  point := true
  nan := "null"
  infinity _ := "null"

-- Singles are written in full for exponents from -6 to 12.
def singleLayout : Layout where
  tie := .even
  full e := -6 ≤ e && e ≤ 12
  point := true
  nan := "null"
  infinity _ := "null"

inductive Page where
  | atom (text : List Char)
  | arr (items : List Page)
  | obj (fields : List (String × Page))

namespace Page

def hexDigit (n : Nat) : Char := if n < 10 then .ofNat (48 + n) else .ofNat (87 + n)

def escape (c : Char) : List Char :=
  if c = '"' then ['\\', '"']
  else if c = '\\' then ['\\', '\\']
  else if c.toNat = 8 then ['\\', 'b']
  else if c.toNat = 12 then ['\\', 'f']
  else if c = '\n' then ['\\', 'n']
  else if c = '\r' then ['\\', 'r']
  else if c = '\t' then ['\\', 't']
  else if c.toNat < 0x20 then
    ['\\', 'u', '0', '0', hexDigit (c.toNat / 16), hexDigit (c.toNat % 16)]
  else [c]

def quote (s : String) : List Char := '"' :: s.toList.flatMap escape ++ ['"']

def str (s : String) : Page := atom (quote s)

def bool (b : Bool) : Page := atom (if b then ['t', 'r', 'u', 'e'] else ['f', 'a', 'l', 's', 'e'])

def null : Page := atom ['n', 'u', 'l', 'l']

def int (n : Int) : Page := atom ((if n < 0 then ['-'] else []) ++ Nat.toDigits 10 n.natAbs)

def single (x : Single) : Page := atom (singleLayout.write x).toList

def double (x : Double) : Page := atom (doubleLayout.write x).toList

def optional (f : α → Page) : Option α → Page
  | none => null
  | some a => f a

mutual

def ofJson : Json → Page
  | .null => null
  | .bool b => bool b
  | .int n => int n
  | .float x => double x
  | .str s => str s
  | .arr items => arr (ofItems items)
  | .obj fields => obj (ofFields fields)

def ofItems : List Json → List Page
  | [] => []
  | v :: vs => ofJson v :: ofItems vs

def ofFields : List (String × Json) → List (String × Page)
  | [] => []
  | (k, v) :: vs => (k, ofJson v) :: ofFields vs

end

mutual

def line : Page → List Char
  | atom t => t
  | arr [] => ['[', ']']
  | arr (v :: vs) => '[' :: line v ++ lineItems vs
  | obj [] => ['{', '}']
  | obj ((k, v) :: vs) => '{' :: quote k ++ ':' :: line v ++ lineFields vs

def lineItems : List Page → List Char
  | [] => [']']
  | v :: vs => ',' :: line v ++ lineItems vs

def lineFields : List (String × Page) → List Char
  | [] => ['}']
  | (k, v) :: vs => ',' :: quote k ++ ':' :: line v ++ lineFields vs

end

def indent (depth : Nat) : List Char := '\n' :: List.replicate (2 * depth) ' '

mutual

-- The lines of a value that starts at an indent of `depth` steps.
def lines (depth : Nat) : Page → List Char
  | atom t => t
  | arr [] => ['[', ']']
  | arr (v :: vs) => '[' :: indent (depth + 1) ++ lines (depth + 1) v ++ linesItems depth vs
  | obj [] => ['{', '}']
  | obj ((k, v) :: vs) =>
    '{' :: indent (depth + 1) ++ quote k ++ ':' :: ' ' :: lines (depth + 1) v ++
      linesFields depth vs

def linesItems (depth : Nat) : List Page → List Char
  | [] => indent depth ++ [']']
  | v :: vs => ',' :: indent (depth + 1) ++ lines (depth + 1) v ++ linesItems depth vs

def linesFields (depth : Nat) : List (String × Page) → List Char
  | [] => indent depth ++ ['}']
  | (k, v) :: vs =>
    ',' :: indent (depth + 1) ++ quote k ++ ':' :: ' ' :: lines (depth + 1) v ++
      linesFields depth vs

end

def compact (p : Page) : String := .ofList p.line

def pretty (p : Page) : String := .ofList (p.lines 0)

end Page
end Inference
