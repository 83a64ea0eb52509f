import Inference.Toml.Basic

/-!
The texts of TOML scalars: strings in their four forms, numbers, and the kinds of dates and times.
Each reader takes a text and gives what is left of it.
-/

namespace Inference.Toml.Scalar

abbrev Reader (α : Type) := List Char → Option (α × List Char)

def isWs (c : Char) : Bool := c = ' ' || c = '\t'

def skipWs : List Char → List Char := List.dropWhile isWs

-- Both line ends stand for one.
def newline? : List Char → Option (List Char)
  | '\n' :: s => some s
  | '\r' :: '\n' :: s => some s
  | _ => none

-- No control character but the tab stands in a text or a comment.
def isPlain (c : Char) : Bool := c = '\t' || (0x20 ≤ c.toNat && c.toNat ≠ 0x7F)

def comment : List Char → List Char
  | '#' :: s => s.dropWhile isPlain
  | s => s

def hexDigit? (c : Char) : Option Nat :=
  if c.isDigit then some (c.toNat - 48)
  else if 'a' ≤ c ∧ c ≤ 'f' then some (c.toNat - 87)
  else if 'A' ≤ c ∧ c ≤ 'F' then some (c.toNat - 55)
  else none

def codePoint (places : Nat) : Reader Char := fun s => do
  let ds ← (s.take places).mapM hexDigit?
  let n := ds.foldl (fun n d => n * 16 + d) 0
  if ds.length = places ∧ n.isValidChar then return (.ofNat n, s.drop places) else none

-- What follows a backslash.
def escaped : Reader Char
  | 'b' :: s => some ('\x08', s)
  | 't' :: s => some ('\t', s)
  | 'n' :: s => some ('\n', s)
  | 'f' :: s => some ('\x0c', s)
  | 'r' :: s => some ('\r', s)
  | '"' :: s => some ('"', s)
  | '\\' :: s => some ('\\', s)
  | 'u' :: s => codePoint 4 s
  | 'U' :: s => codePoint 8 s
  | _ => none

-- A text up to its closing quote. The first number bounds the characters to read.
def basic : Nat → List Char → Reader String
  | 0, _, _ => none
  | n + 1, acc, s =>
    match s with
    | '"' :: s => some (.ofList acc.reverse, s)
    | '\\' :: s => escaped s >>= fun (c, s) => basic n (c :: acc) s
    | c :: s => if isPlain c then basic n (c :: acc) s else none
    | [] => none

def literal (s : List Char) : Option (String × List Char) :=
  let (body, rest) := s.span fun c => isPlain c && c ≠ '\''
  match rest with
  | '\'' :: rest => some (.ofList body, rest)
  | _ => none

-- Blanks and line ends.
def skipLines : Nat → List Char → List Char
  | 0, s => s
  | n + 1, s =>
    match newline? s with
    | some s => skipLines n s
    | none =>
      match s with
      | c :: s' => if isWs c then skipLines n s' else s
      | [] => []

-- A run of quotes closes a text over several lines if there are three of them; up to two more
-- belong to the text.
def closing? (quote : Char) (s : List Char) : Option (List Char × List Char) :=
  let run := min (s.takeWhile (· = quote)).length 5
  if 3 ≤ run then some (List.replicate (run - 3) quote, s.drop run) else none

def multilineBasic : Nat → List Char → Reader String
  | 0, _, _ => none
  | n + 1, acc, s =>
    match closing? '"' s, newline? s with
    | some (quotes, s), _ => some (.ofList (quotes ++ acc).reverse, s)
    | none, some s => multilineBasic n ('\n' :: acc) s
    | none, none =>
      match s with
      | '\\' :: s =>
        match newline? (skipWs s) with
        | some r => multilineBasic n acc (skipLines r.length r)
        | none => escaped s >>= fun (c, s) => multilineBasic n (c :: acc) s
      | c :: s => if isPlain c then multilineBasic n (c :: acc) s else none
      | [] => none

def multilineLiteral : Nat → List Char → Reader String
  | 0, _, _ => none
  | n + 1, acc, s =>
    match closing? '\'' s, newline? s with
    | some (quotes, s), _ => some (.ofList (quotes ++ acc).reverse, s)
    | none, some s => multilineLiteral n ('\n' :: acc) s
    | none, none =>
      match s with
      | c :: s => if isPlain c then multilineLiteral n (c :: acc) s else none
      | [] => none

-- A line end right after the opening quotes is not part of the text.
def openLine (s : List Char) : List Char := (newline? s).getD s

def string : Reader String
  | '"' :: '"' :: '"' :: s => let s := openLine s; multilineBasic (s.length + 1) [] s
  | '\'' :: '\'' :: '\'' :: s => let s := openLine s; multilineLiteral (s.length + 1) [] s
  | '"' :: s => basic (s.length + 1) [] s
  | '\'' :: s => literal s
  | _ => none

-- Digits, with single underscores between them.
def digitsAfter (digit? : Char → Option Nat) : List Char → List Nat × List Char
  | '_' :: c :: s =>
    match digit? c with
    | some d => let (ds, r) := digitsAfter digit? s; (d :: ds, r)
    | none => ([], '_' :: c :: s)
  | c :: s =>
    match digit? c with
    | some d => let (ds, r) := digitsAfter digit? s; (d :: ds, r)
    | none => ([], c :: s)
  | [] => ([], [])

def digits (digit? : Char → Option Nat) : Reader (List Nat)
  | c :: s => do
    let d ← digit? c
    let (ds, r) := digitsAfter digit? s
    return (d :: ds, r)
  | [] => none

def below (base : Nat) (c : Char) : Option Nat :=
  hexDigit? c >>= fun d => if d < base then some d else none

def ofDigits (base : Nat) (ds : List Nat) : Nat := ds.foldl (fun n d => n * base + d) 0

def sign : List Char → Bool × List Char
  | '-' :: s => (true, s)
  | '+' :: s => (false, s)
  | s => (false, s)

-- No zero stands before another digit.
def decimal : Reader (Bool × List Nat) := fun s => do
  let (minus, s) := sign s
  match s with
  | '0' :: s => return ((minus, [0]), s)
  | _ =>
    let (ds, s) ← digits (below 10) s
    return ((minus, ds), s)

def inWord (n : Int) : Option Toml :=
  if -Nat.pow 2 63 ≤ n ∧ n < Nat.pow 2 63 then some (.int n) else none

def based (base : Nat) (s : List Char) : Option (Toml × List Char) := do
  let (ds, s) ← digits (below base) s
  return (← inWord (ofDigits base ds), s)

def integer : Reader Toml
  | '0' :: 'x' :: s => based 16 s
  | '0' :: 'o' :: s => based 8 s
  | '0' :: 'b' :: s => based 2 s
  | s => do
    let ((minus, ds), s) ← decimal s
    let n : Int := ofDigits 10 ds
    return (← inWord (if minus then -n else n), s)

def exponent : Reader Int
  | c :: s =>
    if c = 'e' ∨ c = 'E' then do
      let (minus, s) := sign s
      let (ds, s) ← digits (below 10) s
      let n : Int := ofDigits 10 ds
      return (if minus then -n else n, s)
    else none
  | [] => none

-- A number with a fraction or an exponent. One that is too large is refused, but not its negative.
def finite : Reader Toml := fun s => do
  let ((minus, whole), s) ← decimal s
  let (fraction, e, s) ← match s with
    | '.' :: s => do
      let (ds, s) ← digits (below 10) s
      match exponent s with
      | some (e, s) => some (ds, e, s)
      | none => some (ds, 0, s)
    | _ => do
      let (e, s) ← exponent s
      some ([], e, s)
  let x : Double := .ofDecimal minus (ofDigits 10 (whole ++ fraction)) (e - fraction.length)
  if x = .ofPattern false Precision.double.infinity then none else return (.float x, s)

def special : Reader Toml := fun s =>
  let (minus, s) := sign s
  match s with
  | 'i' :: 'n' :: 'f' :: s => some (.float (.ofPattern minus Precision.double.infinity), s)
  | 'n' :: 'a' :: 'n' :: s =>
    some (.float (.ofPattern minus (Precision.double.infinity + Precision.double.quiet)), s)
  | _ => none

-- A number of fixed width within bounds.
def field (width low high : Nat) : Reader Nat := fun s => do
  let ds ← (s.take width).mapM (below 10)
  let n := ofDigits 10 ds
  if ds.length = width ∧ low ≤ n ∧ n ≤ high then return (n, s.drop width) else none

def char (c : Char) : Reader Unit
  | d :: s => if c = d then some ((), s) else none
  | [] => none

def isLeap (year : Nat) : Bool := year % 4 = 0 && (year % 100 ≠ 0 || year % 400 = 0)

def daysIn (year month : Nat) : Nat :=
  if month = 2 then if isLeap year then 29 else 28
  else if month ∈ [4, 6, 9, 11] then 30
  else 31

def date : Reader Unit := fun s => do
  let (year, s) ← field 4 0 9999 s
  let (_, s) ← char '-' s
  let (month, s) ← field 2 1 12 s
  let (_, s) ← char '-' s
  let (_, s) ← field 2 1 (daysIn year month) s
  return ((), s)

def secondFraction (s : List Char) : List Char :=
  match s with
  | '.' :: c :: r => if c.isDigit then r.dropWhile Char.isDigit else s
  | _ => s

def time : Reader Unit := fun s => do
  let (_, s) ← field 2 0 23 s
  let (_, s) ← char ':' s
  let (_, s) ← field 2 0 59 s
  let (_, s) ← char ':' s
  let (_, s) ← field 2 0 60 s
  return ((), secondFraction s)

def offset (s : List Char) : List Char :=
  match s with
  | 'Z' :: r => r
  | 'z' :: r => r
  | c :: r =>
    if c = '+' ∨ c = '-' then
      let hours : Option (List Char) := do
        let (_, r) ← field 2 0 23 r
        let (_, r) ← char ':' r
        let (_, r) ← field 2 0 59 r
        return r
      hours.getD s
    else s
  | [] => []

-- A date, a time, or both with a letter or a blank between them; only both may have an offset.
def datetime : Reader Toml := fun s =>
  match date s with
  | some (_, s) =>
    match s with
    | c :: r =>
      if c = 'T' ∨ c = 't' ∨ c = ' ' then
        match time r with
        | some (_, r) => some (.datetime, offset r)
        | none => some (.datetime, s)
      else some (.datetime, s)
    | [] => some (.datetime, [])
  | none => (time s).map fun (_, s) => (.datetime, s)

def boolean : Reader Toml
  | 't' :: 'r' :: 'u' :: 'e' :: s => some (.bool true, s)
  | 'f' :: 'a' :: 'l' :: 's' :: 'e' :: s => some (.bool false, s)
  | _ => none

def scalar : Reader Toml := fun s =>
  ((string s).map fun (t, s) => (.str t, s)) <|> boolean s <|> datetime s <|> finite s <|>
    special s <|> integer s

end Inference.Toml.Scalar
