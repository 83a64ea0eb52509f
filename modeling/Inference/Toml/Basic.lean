import Inference.Number.Binary
import Inference.Dict

/-!
TOML values and the rules by which a document fills its tables. A table is implicit while no header
names it, and dotted if a dotted key made it. A header may name an implicit table once, and no
dotted one; a dotted key may enter implicit tables only, and add a key to dotted ones only.
-/

namespace Inference

inductive Toml where
  | int (n : Int)
  | float (x : Double)
  | bool (b : Bool)
  | str (s : String)
  | datetime
  | arr (items : List Toml)
  | inline (fields : List (String × Toml))
  | table (implicit dotted : Bool) (fields : List (String × Toml))
  -- A table for each header of the array.
  | tables (items : List Toml)

namespace Toml

abbrev Fields := List (String × Toml)

-- A table of a document that is being read.
structure Table where
  implicit : Bool
  dotted : Bool
  fields : Fields

def Table.node (t : Table) : Toml := .table t.implicit t.dotted t.fields

def root : Table := ⟨false, false, []⟩

-- Changes the table at the end of a path and makes the tables that are missing on the way. A path
-- leads into the last table of an array.
def enter (dotted : Bool) (change : Table → Option Table) : List String → Table → Option Table
  | [], t => change t
  | k :: path, t =>
    match Entries.get? k t.fields with
    | none => do
      let child ← enter dotted change path ⟨true, dotted, []⟩
      return { t with fields := Entries.put k child.node t.fields }
    | some (.table implicit isDotted fields) =>
      if dotted && !implicit then none
      else do
        let child ← enter dotted change path ⟨implicit, isDotted, fields⟩
        return { t with fields := Entries.put k child.node t.fields }
    | some (.tables items) =>
      match items.getLast? with
      | some (.table implicit isDotted fields) => do
        let child ← enter dotted change path ⟨implicit, isDotted, fields⟩
        let items := items.dropLast ++ [child.node]
        return { t with fields := Entries.put k (.tables items) t.fields }
      | _ => none
    | some _ => none

def splitLast? : List String → Option (List String × String)
  | [] => none
  | [k] => some ([], k)
  | k :: path => (splitLast? path).map fun (front, last) => (k :: front, last)

-- A key with a value, below a table.
def assign (path : List String) (v : Toml) (t : Table) : Option Table := do
  let (front, k) ← splitLast? path
  let add (t : Table) : Option Table :=
    if t.dotted = front.isEmpty ∨ (Entries.get? k t.fields).isSome then none
    else some { t with fields := Entries.put k v t.fields }
  enter true add front t

-- A header for one table.
def openTable (path : List String) (t : Table) : Option Table := do
  let (front, k) ← splitLast? path
  let add (t : Table) : Option Table :=
    match Entries.get? k t.fields with
    | none => some { t with fields := Entries.put k (.table false false []) t.fields }
    | some (.table true false fields) =>
      some { t with fields := Entries.put k (.table false false fields) t.fields }
    | some _ => none
  enter false add front t

-- A header for one more table of an array.
def openItem (path : List String) (t : Table) : Option Table := do
  let (front, k) ← splitLast? path
  let item := Toml.table false false []
  let add (t : Table) : Option Table :=
    match Entries.get? k t.fields with
    | none => some { t with fields := Entries.put k (.tables [item]) t.fields }
    | some (.tables items) =>
      some { t with fields := Entries.put k (.tables (items ++ [item])) t.fields }
    | some _ => none
  enter false add front t

-- The fields of an inline table follow the rules of a document without headers.
def inlineOf (pairs : List (List String × Toml)) : Option Toml := do
  let t ← pairs.foldlM (fun (t : Table) p => assign p.1 p.2 t) root
  return .inline t.fields

end Toml
end Inference
