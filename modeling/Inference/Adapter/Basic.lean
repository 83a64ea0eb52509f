import Inference.Artifact
import Inference.Descriptor
import Inference.Gate.Basic

/-!
What a runner asks of a framework. An instance of a model is a value of a type of the framework, and
the framework keeps a state beside its instances.
-/

namespace Inference

structure Adapter (σ β : Type) where
  load : β → Buffers → StateM σ (Except Error β)
  -- Loads the file at a path with a key for its decryption.
  loadFile : β → String → String → StateM σ (Except Error β)
  supports : β → DeviceId → StateM σ Bool := fun _ _ => pure true
  configure : β → Section → StateM σ β := fun b _ => pure b
  moveTo : β → DeviceId → StateM σ β
  -- Another loaded instance, on a device.
  copy : β → DeviceId → StateM σ (Except Error β)
  process : β → Input → StateM σ Reply
  acquire : β → StateM σ (Except Error Unit) := fun _ => pure (.ok ())
  release : β → StateM σ Unit := fun _ => pure ()
  -- An input for a backend index, with nothing in it.
  blank : β → Nat → Input := fun _ index => .blank index
  describe : β → String

namespace Adapter

variable {σ β : Type}

-- Files that need no key are loaded as artifacts.
def loadPlain (files : σ → Files) (load : β → Buffers → StateM σ (Except Error β)) (b : β)
    (path : String) : StateM σ (Except Error β) := do
  match readArtifact (files (← get)) path with
  | .error e => return .error e
  | .ok buffers => load b buffers

end Adapter
end Inference
