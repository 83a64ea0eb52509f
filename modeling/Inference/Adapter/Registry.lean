import Inference.Backend
import Inference.Error

/-!
The frameworks that are at hand, each with a way to make an instance that is not loaded.
-/

namespace Inference

structure Registry (κ : Type) where
  constructor? : Backend → Option κ

namespace Registry

variable {κ σ β : Type} (r : Registry κ)

def empty : Registry κ := ⟨fun _ => none⟩

def register (k : Backend) (c : κ) : Registry κ :=
  ⟨fun j => if j = k then some c else r.constructor? j⟩

def unregister (k : Backend) : Registry κ :=
  ⟨fun j => if j = k then none else r.constructor? j⟩

def has (k : Backend) : Bool := (r.constructor? k).isSome

-- Lowest bit first; the backend without a bit comes before all others.
def kinds : List Backend := (Backend.none :: Backend.all).filter r.has

def mask : BackendMask := .ofList r.kinds

def make (r : Registry (StateM σ (Except Error β))) (k : Backend) : StateM σ (Except Error β) :=
  match r.constructor? k with
  | some c => c
  | none => pure (.error (.unsupportedBackend k.name))

end Registry
end Inference
