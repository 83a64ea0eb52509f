import Inference.Json.Basic
import Inference.Json.Doc

/-!
Typed values from JSON texts. A record is an object with known fields, or an array that lists them
in order. A known field appears at most once; fields that are not known are passed over, whatever
their values are.
-/

namespace Inference.Json

-- How many containers may be nested in each other.
def maxDepth : Nat := 127

namespace Doc

mutual

-- The value, if every literal has one and at most `room` containers are nested.
def json? (room : Nat) : Doc → Option Json
  | null => some .null
  | bool b => some (.bool b)
  | num none => none
  | num (some (.int n)) => some (.int n)
  | num (some (.float x)) => some (.float x)
  | str none => none
  | str (some s) => some (.str s)
  | arr ds => if room = 0 then none else (itemsJson? (room - 1) ds).map .arr
  | obj ds => if room = 0 then none else (fieldsJson? (room - 1) [] ds).map .obj

def itemsJson? (room : Nat) : List Doc → Option (List Json)
  | [] => some []
  | d :: ds =>
    match json? room d, itemsJson? room ds with
    | some v, some vs => some (v :: vs)
    | _, _ => none

-- Of two fields with one name the later one stays.
def fieldsJson? (room : Nat) (acc : List (String × Json)) :
    List (Option String × Doc) → Option (List (String × Json))
  | [] => some acc
  | (none, _) :: _ => none
  | (some k, d) :: ds =>
    match json? room d with
    | some v => fieldsJson? room (Entries.put k v acc) ds
    | none => none

end

def bool? : Doc → Option Bool
  | bool b => some b
  | _ => none

def text? : Doc → Option String
  | str s => s
  | _ => none

def int? (low high : Int) : Doc → Option Int
  | num (some (.int n)) => if low ≤ n ∧ n ≤ high then some n else none
  | _ => none

def nat? (bits : Nat) (d : Doc) : Option Nat := (d.int? 0 (Nat.pow 2 bits - 1)).map Int.toNat

-- An integer is rounded to the precision at once, any other number by way of a double.
def float? {p : Precision} : Doc → Option (Binary p)
  | num (some (.int n)) => some (.ofInt n)
  | num (some (.float x)) => some x.convert
  | _ => none

def optional? {α : Type} (f : Doc → Option α) : Doc → Option (Option α)
  | null => some none
  | d => (f d).map some

-- One of several names: as a text, or as the only field of an object, with null.
def name? : Doc → Option String
  | str s => s
  | obj [(k, null)] => k
  | _ => none

def named : List (Option String × Doc) → Option (List (String × Doc))
  | [] => some []
  | (k, d) :: ds => do return (← k, d) :: (← named ds)

-- A map from texts; of two entries with one key the later one stays.
def dict? {α : Type} (f : Doc → Option α) : Doc → Option (Dict α)
  | obj ds => do return .ofList (← (← named ds).mapM fun (k, d) => do return (k, ← f d))
  | _ => none

def list? {α : Type} (f : Doc → Option α) : Doc → Option (List α)
  | arr ds => ds.mapM f
  | _ => none

-- The fields of an object as the known ones and the others.
def split? (known : List String) : Doc → Option (List (String × Doc) × List (String × Doc))
  | obj ds => do
    let ds ← named ds
    let own := ds.filter (known.contains ·.1)
    if (own.map (·.1)).Nodup then return (own, ds.filter (!known.contains ·.1)) else none
  | _ => none

def record? (known : List String) : Doc → Option (List (String × Doc))
  | arr ds => if ds.length ≤ known.length then some (known.zip ds) else none
  | d => (d.split? known).map (·.1)

end Doc

-- A field that may be left out.
def field {α : Type} (fields : List (String × Doc)) (name : String) (read : Doc → Option α)
    (default : α) : Option α :=
  match fields.lookup name with
  | none => some default
  | some d => read d

def required {α : Type} (fields : List (String × Doc)) (name : String)
    (read : Doc → Option α) : Option α :=
  fields.lookup name >>= read

end Inference.Json
