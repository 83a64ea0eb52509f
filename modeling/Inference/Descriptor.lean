import Inference.Backend
import Inference.Json.Page
import Inference.Json.Record

/-!
Model descriptors: the frameworks that a model has artifacts for, with the layer names and the files
of each. Fields of a descriptor that have no meaning here are kept and written again.
-/

namespace Inference

structure Section where
  -- Layer names by alias.
  inputs : Dict String
  files : List String
  extra : Dict Json
deriving DecidableEq

namespace Section

instance : Inhabited Section := ⟨∅, [], ∅⟩

def withInput (s : Section) (nick layer : String) : Section :=
  { s with inputs := s.inputs.insert nick layer }

def withFile (s : Section) (file : String) : Section := { s with files := s.files ++ [file] }

-- An alias without a layer name of its own is the layer name.
def inputName (s : Section) (nick : String) : String := (s.inputs.get? nick).getD nick

def extraPages (extra : Dict Json) : List (String × Page) :=
  extra.entries.map fun e => (e.1, Page.ofJson e.2)

-- An empty list of files is left out.
def page (s : Section) : Page :=
  .obj (("inputs", .obj (s.inputs.entries.map fun e => (e.1, .str e.2))) ::
    (if s.files = [] then [] else [("files", .arr (s.files.map .str))]) ++ extraPages s.extra)

def known : List String := ["inputs", "files"]

end Section

open Json

-- The fields that have no meaning here. `room` is the number of containers that may be nested in
-- each other in one of them.
def extraOfDocs? (room : Nat) (fields : List (String × Doc)) : Option (Dict Json) := do
  return .ofList (← fields.mapM fun (k, d) => do return (k, ← d.json? room))

def Section.ofDoc? (room : Nat) (d : Doc) : Option Section := do
  let (fields, others) ← d.split? Section.known
  return {
    inputs := ← field fields "inputs" (Doc.dict? Doc.text?) ∅
    files := ← field fields "files" (Doc.list? Doc.text?) []
    extra := ← extraOfDocs? room others }

structure Descriptor where
  name : String
  password : Option String
  -- By framework key.
  sections : Dict Section
  extra : Dict Json
deriving DecidableEq

namespace Descriptor

def named (name : String) : Descriptor := ⟨name, none, ∅, ∅⟩

def withSection (m : Descriptor) (k : Backend) (s : Section) : Descriptor :=
  { m with sections := m.sections.insert k.key s }

-- What decrypts the artifacts; empty where they are not encrypted.
def key (m : Descriptor) : String := m.password.getD ""

def section? (m : Descriptor) (k : Backend) : Option Section := m.sections.get? k.key

def supports (m : Descriptor) (k : Backend) : Bool := m.sections.contains k.key

def backends (m : Descriptor) : BackendMask := .ofList (m.sections.keys.filterMap Backend.ofKey?)

-- An absent password is left out.
def page (m : Descriptor) : Page :=
  .obj (("name", .str m.name) ::
    (match m.password with
      | none => []
      | some p => [("password", .str p)]) ++
    ("backends", .obj (m.sections.entries.map fun e => (e.1, e.2.page))) ::
    Section.extraPages m.extra)

def toJson (m : Descriptor) : String := m.page.pretty

def known : List String := ["name", "password", "backends"]

-- A section is nested in two containers, and a field of it in three.
def ofDoc? (d : Doc) : Option Descriptor := do
  let (fields, others) ← d.split? known
  return {
    name := ← required fields "name" Doc.text?
    password := ← field fields "password" (Doc.optional? Doc.text?) none
    sections := ← field fields "backends" (Doc.dict? (Section.ofDoc? (maxDepth - 3))) ∅
    extra := ← extraOfDocs? (maxDepth - 1) others }

def parse? (text : String) : Option Descriptor := Doc.ofString? text >>= ofDoc?

end Descriptor
end Inference
