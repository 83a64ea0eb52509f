import Inference.Descriptor
import Inference.Device.Catalog

/-!
Which frameworks can run on a device, which of them is preferred there, and on which devices the
instances of a model go.
-/

namespace Inference

-- Devices, each with a number of instances.
abbrev Allocation := List (DeviceId × Nat)

-- The first release of macOS whose CoreML is used, unless another is asked for.
def coreMlFloor : Single := .ofDecimal false 1015 (-2)

namespace Catalog

variable (c : Catalog)

def supportsCoreMl (floor : Single) : Bool := c.host.isMac && floor.le c.host.osVersion

-- Whether the device that a number stands for can run a framework.
def runs (floor : Single) (id : DeviceId) (k : Backend) : Bool :=
  let a := c.accelerator? id
  let fp16 := a.any (·.supportsFp16)
  let intelOrCpu := a.all (·.isIntel)
  match k with
  | .coreMl => c.supportsCoreMl floor
  | .tensorRt => a.any (·.isNvidia)
  | .openVino | .openVino8 => intelOrCpu
  | .openVino16 => intelOrCpu && fp16
  | .onnx16 => fp16
  | _ => true

-- The frameworks of a mask that the device can run.
def available (m : BackendMask) (id : DeviceId) (floor : Single) : BackendMask :=
  m.filter (c.runs floor id)

-- The frameworks that are tried for a device before all others, best first.
def ranking (id : DeviceId) (floor : Single) : List Backend :=
  let a := c.accelerator? id
  let fp16 := a.any (·.supportsFp16)
  (if c.host.isApple && c.supportsCoreMl floor then [.coreMl] else []) ++
    (if a.any (·.isNvidia) then [.tensorRt] else []) ++
    (if a.all (·.isIntel) then (if fp16 then [.openVino16] else []) ++ [.openVino] else []) ++
    (if fp16 then [.onnx16] else []) ++ [.onnx]

-- Where none of them is in the mask, the lowest bit is taken.
def backendAbove? (id : DeviceId) (m : BackendMask) (floor : Single) : Option Backend :=
  (c.ranking id floor ++ Backend.all).find? m.has

def backend? (id : DeviceId) (m : BackendMask) : Option Backend := c.backendAbove? id m coreMlFloor

-- The device for a framework, or every accelerator where the number asks for all of them.
def targets (id : DeviceId) (k : Backend) : List DeviceId :=
  if !k.usesAccelerators then [.cpu]
  else if 0 < c.count ∧ id = .all c.count then (List.range c.count).map .gpu
  else [c.resolve id]

-- A number of instances has 64 bits, and a sum that leaves them wraps in a release build.
def instances (id : DeviceId) (extraThreads : Nat) (k : Backend) : Allocation :=
  (c.targets id k).map fun d => (d, (c.threads d + extraThreads) % Nat.pow 2 64)

-- The same in a build with overflow checks; none if it breaks off at such a sum.
def instances? (id : DeviceId) (extraThreads : Nat) (k : Backend) : Option Allocation :=
  if ∀ d ∈ c.targets id k, c.threads d + extraThreads < Nat.pow 2 64 then
    some (c.instances id extraThreads k)
  else none

-- What a model can run on a device, among the frameworks that are registered.
def usable (m : Descriptor) (registered : BackendMask) (id : DeviceId) : BackendMask :=
  c.available (registered.inter m.backends) id coreMlFloor

def chosen? (m : Descriptor) (registered : BackendMask) (id : DeviceId) : Option Backend :=
  c.backend? id (c.usable m registered id)

-- The files of the framework that would be chosen.
def files (m : Descriptor) (registered : BackendMask) (id : DeviceId) : List String :=
  let usable := c.available (m.backends.inter registered) id coreMlFloor
  ((c.backend? id usable >>= m.section?).map (·.files)).getD []

end Catalog
end Inference
