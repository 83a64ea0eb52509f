import Inference.Dict
import Inference.Tensor.Basic

/-!
What a model instance is given: images and parameters by layer name, and the layers to read.
-/

namespace Inference

structure Input where
  backendIndex : Nat
  -- Whether layer names are given the suffix that graphs put after the names of their outputs.
  fixNames : Bool
  images : Dict Tensor
  params : Dict Single
  outputs : List String
deriving DecidableEq

namespace Input

def blank (backendIndex : Nat) : Input := ⟨backendIndex, false, ∅, ∅, []⟩

def suffix : String := ":0"

-- A name that has the suffix already is left alone.
def layerName (i : Input) (name : String) : String :=
  if i.fixNames && !suffix.toList.isSuffixOf name.toList then name ++ suffix else name

def withFixedNames (i : Input) (fixNames : Bool) : Input := { i with fixNames }

def withBackendIndex (i : Input) (backendIndex : Nat) : Input := { i with backendIndex }

def setImage (i : Input) (name : String) (image : Tensor) : Input :=
  { i with images := i.images.insert (i.layerName name) image }

def setParam (i : Input) (name : String) (x : Single) : Input :=
  { i with params := i.params.insert (i.layerName name) x }

def setOutputs (i : Input) (names : List String) : Input :=
  { i with outputs := names.map i.layerName }

-- The name as it stands in the input, with its suffix if it has one.
def image? (i : Input) (name : String) : Option Tensor := i.images.get? name

-- The index and the rule for names stay.
def clear (i : Input) : Input := { i with images := ∅, params := ∅, outputs := [] }

end Input
end Inference
