/-!
Device numbers. They have 32 bits and a sign: -1 is the CPU, -2 asks for the preferred device, and
accelerators count from 0.
-/

namespace Inference

structure DeviceId where
  val : Int
deriving DecidableEq, Repr

namespace DeviceId

def cpu : DeviceId := ⟨-1⟩

def auto : DeviceId := ⟨-2⟩

-- The low 32 bits of an integer.
def wrap (n : Int) : DeviceId := ⟨n.bmod (Nat.pow 2 32)⟩

def gpu (index : Nat) : DeviceId := wrap index

-- On a host with `count` accelerators this number stands for all of them.
def all (count : Nat) : DeviceId := wrap count

def isCpu (id : DeviceId) : Bool := id = cpu

def gpuIndex? (id : DeviceId) : Option Nat := if 0 ≤ id.val then some id.val.toNat else none

def text (id : DeviceId) : String :=
  if id = cpu then "cpu" else if id = auto then "auto" else "device:" ++ toString id.val

end DeviceId
end Inference
