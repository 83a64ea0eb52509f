import Inference.Adapter.Basic
import Inference.Text.Quoted

/-!
An instance with a label that runs nothing: it keeps the buffers that it was given, and all that can
be left to the general rules is left to them.
-/

namespace Inference

structure Labelled where
  label : String
  device : DeviceId
  buffers : Option Buffers

namespace Labelled

def named (label : String) : Labelled := ⟨label, .cpu, none⟩

def isLoaded (l : Labelled) : Bool := l.buffers.isSome

-- The label and the device, and the names of the buffers if there are any.
def describe (l : Labelled) : String :=
  l.label ++ " on " ++ l.device.text ++
    (l.buffers.map fun b => " " ++ Text.Quoted.writeList b.keys).getD ""

def load {σ : Type} (l : Labelled) (b : Buffers) : StateM σ (Except Error Labelled) :=
  return .ok { l with buffers := some b }

-- The state is the files.
def adapter : Adapter Files Labelled where
  load := load
  loadFile l path _ := Adapter.loadPlain id load l path
  moveTo l d := return { l with device := d }
  copy l d := return .ok { l with device := d }
  process _ _ := return .output .empty
  describe := describe

end Labelled
end Inference
