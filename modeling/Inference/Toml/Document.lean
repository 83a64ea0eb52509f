import Inference.Toml.Scalar

/-!
TOML documents: keys with values, line by line, under headers that name tables.
-/

namespace Inference.Toml

open Scalar

-- How many arrays and inline tables may be nested in each other, and how many parts a key may have.
def maxNesting : Nat := 79

def isBare (c : Char) : Bool := c.isAlphanum || c = '_' || c = '-'

def simpleKey : Reader String := fun s =>
  match s with
  | '"' :: r => basic (r.length + 1) [] r
  | '\'' :: r => literal r
  | _ =>
    let (k, r) := s.span isBare
    if k = [] then none else some (.ofList k, r)

-- A key of several parts with points between them. The number bounds the parts.
def keyParts : Nat → Reader (List String)
  | 0, _ => none
  | n + 1, s => do
    let (k, s) ← simpleKey (skipWs s)
    match skipWs s with
    | '.' :: s => do
      let (ks, s) ← keyParts n s
      return (k :: ks, s)
    | s => return ([k], s)

def key : Reader (List String) := keyParts maxNesting

-- Blanks, line ends and comments between the items of an array. The number bounds their characters.
def skipGaps : Nat → List Char → List Char
  | 0, s => s
  | n + 1, s =>
    match newline? s with
    | some s => skipGaps n s
    | none =>
      match s with
      | '#' :: _ => skipGaps n (comment s)
      | c :: s' => if isWs c then skipGaps n s' else s
      | [] => []

mutual

-- A value with at most `room` containers in each other. The first number bounds the steps.
def value : Nat → Nat → Reader Toml
  | 0, _, _ => none
  | n + 1, room, s =>
    match s with
    | '[' :: s => if room = 0 then none else items n (room - 1) [] s
    | '{' :: s =>
      if room = 0 then none
      else
        match skipWs s with
        | '}' :: s => some (.inline [], s)
        | s => pairs n (room - 1) [] s
    | s => scalar s

def items : Nat → Nat → List Toml → Reader Toml
  | 0, _, _, _ => none
  | n + 1, room, acc, s =>
    match skipGaps n s with
    | ']' :: s => some (.arr acc.reverse, s)
    | s =>
      match value n room s with
      | none => none
      | some (v, s) =>
        match skipGaps n s with
        | ',' :: s => items n room (v :: acc) s
        | ']' :: s => some (.arr (v :: acc).reverse, s)
        | _ => none

def pairs : Nat → Nat → List (List String × Toml) → Reader Toml
  | 0, _, _, _ => none
  | n + 1, room, acc, s =>
    match key s with
    | some (k, '=' :: s) =>
      match value n room (skipWs s) with
      | none => none
      | some (v, s) =>
        match skipWs s with
        | ',' :: s => pairs n room ((k, v) :: acc) s
        | '}' :: s => (inlineOf ((k, v) :: acc).reverse).map fun t => (t, s)
        | _ => none
    | _ => none

end

-- What may follow on the line: blanks, a comment, and the end of the line or of the text.
def lineEnd? (s : List Char) : Option (List Char) :=
  match comment (skipWs s) with
  | [] => some []
  | s => newline? s

-- The document so far, and the path of the table that keys go into.
structure State where
  table : Table
  path : List String

def header (s : List Char) (st : State) : Option (State × List Char) := do
  match s with
  | '[' :: s =>
    let (path, s) ← key s
    match s with
    | ']' :: ']' :: s => return (⟨← openItem path st.table, path⟩, ← lineEnd? s)
    | _ => none
  | s =>
    let (path, s) ← key s
    match s with
    | ']' :: s => return (⟨← openTable path st.table, path⟩, ← lineEnd? s)
    | _ => none

-- The number bounds the characters of the text.
def assignment (n : Nat) (s : List Char) (st : State) : Option (State × List Char) := do
  let (k, s) ← key s
  match s with
  | '=' :: s =>
    let s := skipWs s
    let (v, s) ← value (2 * n + 2) maxNesting s
    return ({ st with table := ← enter false (assign k v) st.path st.table }, ← lineEnd? s)
  | _ => none

-- The number bounds the characters that are left. Each step reads a line at least.
def linesFrom : Nat → State → List Char → Option Table
  | 0, _, _ => none
  | n + 1, st, s =>
    match skipWs s with
    | [] => some st.table
    | '[' :: s => header s st >>= fun (st, s) => linesFrom n st s
    | s =>
      match lineEnd? s with
      | some s => linesFrom n st s
      | none => assignment (n + 1) s st >>= fun (st, s) => linesFrom n st s

-- The fields of the document, which may start with a byte order mark.
def parse? (text : String) : Option Fields :=
  let s := match text.toList with
    | '\uFEFF' :: s => s
    | s => s
  (linesFrom (s.length + 1) ⟨root, []⟩ s).map (·.fields)

end Inference.Toml
