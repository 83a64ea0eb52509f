import Inference.Device.Accelerator
import Inference.Device.Host
import Inference.Device.Id

/-!
The devices of a host: which of them is preferred, which device a number stands for, and how much
work each can take.
-/

namespace Inference

structure Catalog where
  host : Host
  accelerators : List Accelerator

namespace Catalog

-- Intel accelerators are usable on Windows hosts with AVX2, and a discrete accelerator needs more
-- than 1.5 GB.
def eligible (h : Host) (a : Accelerator) : Bool :=
  (!a.isIntel || (h.isWindows && h.avx2)) &&
    !(a.discrete && a.totalMemory.le (.ofRatio false 3 2))

-- Whether an accelerator takes the place of the best one so far: it has more memory, or as much and
-- half precision instead of none, and no lower compute level.
def replaces (best : Option Accelerator) (a : Accelerator) : Bool :=
  let memory := best.elim (.ofNat 0) (·.totalMemory)
  let fp16 := best.elim false (·.supportsFp16)
  !a.totalMemory.lt memory &&
    !(a.totalMemory.same memory && (!a.supportsFp16 || fp16)) &&
    !best.any (a.computeLevel < ·.computeLevel)

def preferFrom (h : Host) (best : Option (Nat × Accelerator)) :
    Nat → List Accelerator → Option (Nat × Accelerator)
  | _, [] => best
  | i, a :: as =>
    if eligible h a && replaces (best.map (·.2)) a then preferFrom h (some (i, a)) (i + 1) as
    else preferFrom h best (i + 1) as

variable (c : Catalog)

def count : Nat := c.accelerators.length

-- The first accelerator of an Apple host is preferred whatever it is.
def preferred : DeviceId :=
  if c.host.isApple && c.accelerators ≠ [] then .gpu 0
  else (preferFrom c.host none 0 c.accelerators).elim .cpu (.gpu ·.1)

-- Numbers that stand for no device of their own.
def isMeta (id : DeviceId) : Bool := id.val < -1 || (DeviceId.all c.count).val ≤ id.val

def resolve (id : DeviceId) : DeviceId := if c.isMeta id then c.preferred else id

-- The accelerator that a number stands for; none for the CPU.
def accelerator? (id : DeviceId) : Option Accelerator :=
  (c.resolve id).gpuIndex? >>= (c.accelerators[·]?)

def usesLegacy (id : DeviceId) : Bool := (c.accelerator? id).any (·.legacy)

-- 1 for a size above the limit, and 0 for any other.
def above {p : Precision} (limit : Nat) (x : Binary p) : Nat :=
  if (Binary.ofNat limit).lt x then 1 else 0

-- How many models a device can run at a time.
def threads (id : DeviceId) : Nat :=
  if c.host.threads < 4 then 1
  else
    match c.accelerator? id with
    | none => if c.host.avx then c.host.threads / 2 else 1
    | some a =>
      if a.isIntel then 1 + a.dataType.level
      else if a.supportsFp16 then above 4 a.totalMemory + above 6 a.totalMemory + 1
      else above 4 a.totalMemory + 1

-- The share of the largest block size that a device can take, in tenths.
def blockTenths (id : DeviceId) : Nat :=
  match c.accelerator? id with
  | none => if c.host.avx then above 8 c.host.ramTotal * 4 + above 16 c.host.ramTotal * 5 + 1 else 1
  | some a =>
    let m := a.totalMemory
    if a.isIntel then 1 + a.dataType.level
    else if a.supportsFp16 then above 2 m + above 4 m * 2 + above 4 m * 3 + above 6 m * 3 + 1
    else above 2 m + above 4 m * 2 + above 6 m * 3 + above 8 m * 3 + 1

def blocks (id : DeviceId) : Single := .ofRatio false (c.blockTenths id) 10

def memory (id : DeviceId) : Double :=
  (c.accelerator? id).elim c.host.ramTotal (·.totalMemory.convert)

-- Some compute levels are believed only of the family that has them.
def family? : Int → Option String
  | 601 => some "GTX 10"
  | 705 => some "RTX 20"
  | 806 => some "RTX 30"
  | 809 => some "RTX 40"
  | _ => none

def capability (id : DeviceId) : Int :=
  match c.accelerator? id with
  | none => 0
  | some a =>
    match family? a.computeLevel with
    | some family =>
      if Text.occurs family.toList a.name.toList then a.computeLevel else 0
    | none => a.computeLevel

def minMemory : Single :=
  c.accelerators.foldl (fun m a => if a.totalMemory.lt m then a.totalMemory else m) (.ofNat 100)

def page : Page :=
  .obj [("system", c.host.page), ("devices", .arr (c.accelerators.map (·.page))),
    ("preferred", .int c.preferred.val)]

end Catalog
end Inference
