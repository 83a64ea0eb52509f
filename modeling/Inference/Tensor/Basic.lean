import Inference.Number.Binary

/-!
Dense tensors of singles with a row-major shape. A size is a product of dimensions modulo `2 ^ 64`,
as a release build takes it. A build with overflow checks breaks off instead where the product does
not fit.
-/

namespace Inference

structure Tensor where
  shape : List Nat
  data : List Single
deriving DecidableEq

-- Why a tensor cannot be made.
inductive TensorFault where
  | count (shape : List Nat) (needed got : Nat)
  | truncated
  | version (v : Nat)
  | mismatch (shape : List Nat) (bytes : Nat)
deriving DecidableEq

namespace TensorFault

def shapeText (shape : List Nat) : String := "[" ++ ", ".intercalate (shape.map toString) ++ "]"

def text : TensorFault → String
  | count shape needed got =>
    "shape " ++ shapeText shape ++ " needs " ++ toString needed ++ " elements, got " ++ toString got
  | truncated => "truncated tensor data"
  | version v => "unknown tensor format version " ++ toString v
  | mismatch shape bytes =>
    "shape " ++ shapeText shape ++ " does not match " ++ toString bytes ++ " data bytes"

end TensorFault

namespace Tensor

def wordSize : Nat := Nat.pow 2 64

def size (shape : List Nat) : Nat := shape.foldl (fun n d => n * d % wordSize) 1

-- The product of the dimensions, taken from the left, if no step leaves 64 bits.
def checkedSize (shape : List Nat) : Option Nat :=
  shape.foldlM (fun n d => if n * d < wordSize then some (n * d) else none) 1

def ofData (shape : List Nat) (data : List Single) : Except TensorFault Tensor :=
  if size shape = data.length then .ok ⟨shape, data⟩
  else .error (.count shape (size shape) data.length)

def zeros (shape : List Nat) : Tensor := ⟨shape, List.replicate (size shape) (.ofNat 0)⟩

-- What is made of a shape in a build with overflow checks; none if it breaks off there.
def guarded {α : Type} (shape : List Nat) (x : α) : Option α := (checkedSize shape).map fun _ => x

def ofData? (shape : List Nat) (data : List Single) : Option (Except TensorFault Tensor) :=
  guarded shape (ofData shape data)

def zeros? (shape : List Nat) : Option Tensor := guarded shape (zeros shape)

end Tensor
end Inference
