import Inference.Bytes
import Inference.Queue.Backlog

/-!
Tensors as bytes: the version in one byte, the rank in four, each dimension in eight, and each
element in four, all with the lowest byte first. On disk they are kept as such records.
-/

namespace Inference.Tensor

def version : Nat := 1

def encode (t : Tensor) : Bytes :=
  Bytes.ofNat 1 version ++ Bytes.ofNat 4 t.shape.length ++ t.shape.flatMap (Bytes.ofNat 8) ++
    t.data.flatMap fun x => Bytes.ofNat 4 x.bits.toNat

def readShape : Nat → Bytes → Option (List Nat × Bytes)
  | 0, bs => some ([], bs)
  | rank + 1, bs => do
    let (d, bs) ← Bytes.take? 8 bs
    let (shape, bs) ← readShape rank bs
    return (d :: shape, bs)

def readData : Nat → Bytes → Option (List Single)
  | 0, _ => some []
  | n + 1, bs => do
    let (x, bs) ← Bytes.take? 4 bs
    return ⟨.ofNat _ x⟩ :: (← readData n bs)

def decode (bs : Bytes) : Except TensorFault Tensor :=
  match Bytes.take? 1 bs with
  | none => .error .truncated
  | some (v, bs) =>
    if v ≠ version then .error (.version v)
    else
      match Bytes.take? 4 bs >>= fun (rank, bs) => readShape rank bs with
      | none => .error .truncated
      | some (shape, bs) =>
        match checkedSize shape with
        | none => .error (.mismatch shape bs.length)
        | some n =>
          if n * 4 < wordSize ∧ n * 4 = bs.length then
            match readData n bs with
            | some data => ofData shape data
            | none => .error .truncated
          else .error (.mismatch shape bs.length)

def medium : Medium Tensor Bytes where
  write t := .ok t.encode
  read bs := (decode bs).mapError .invalidTensor

end Inference.Tensor
