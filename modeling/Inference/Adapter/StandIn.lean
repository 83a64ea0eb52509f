import Inference.Adapter.Basic
import Inference.Adapter.Registry
import Inference.Depot.Resolver

/-!
A framework that stands in for a real one. Its instances are numbered in the order in which they are
made, it counts what it is asked for, and it can be told to fail.
-/

namespace Inference

-- Where the framework fails, and how its inputs are made.
structure StandInRules where
  unsupported : List DeviceId
  -- The number of copies from which on every copy fails.
  copyLimit : Option Nat
  -- The constructions that fail, by number.
  failingMakes : List Nat
  -- The instances that get no buffers.
  failingBuffers : List Nat
  fixNames : Bool

structure StandInCounts where
  made : Nat
  loaded : Nat
  copied : Nat
  processed : Nat
  acquired : Nat
  released : Nat
  -- The keys of the files that were loaded, in order.
  keys : List String
  sections : List Section

-- A depot, and the framework beside it.
structure Bench where
  depot : Depot
  counts : StandInCounts
  nextId : Nat

structure StandIn where
  id : Nat
  device : DeviceId
  isLoaded : Bool

namespace StandIn

def noCounts : StandInCounts := ⟨0, 0, 0, 0, 0, 0, [], []⟩

def housing : Housing Bench := ⟨Bench.depot, fun s d => { s with depot := d }⟩

def count (f : StandInCounts → StandInCounts) : StateM Bench Unit :=
  modify fun s => { s with counts := f s.counts }

def newId : StateM Bench Nat := modifyGet fun s => (s.nextId, { s with nextId := s.nextId + 1 })

def make (r : StandInRules) : StateM Bench (Except Error StandIn) := do
  let n := (← get).counts.made
  count fun c => { c with made := c.made + 1 }
  if n ∈ r.failingMakes then
    return .error (.unsupportedBackend ("mock constructor refused call " ++ toString n))
  else return .ok ⟨← newId, .cpu, false⟩

def damage : Bytes := Bytes.ofText "corrupt"

-- Buffers that begin with a certain word are damaged.
def load (b : StandIn) (buffers : Buffers) : StateM Bench (Except Error StandIn) := do
  count fun c => { c with loaded := c.loaded + 1 }
  if buffers.entries.any fun e => damage.isPrefixOf e.2 then
    return .error (.modelLoad "corrupt weights")
  else return .ok { b with isLoaded := true }

def loadFile (b : StandIn) (path key : String) : StateM Bench (Except Error StandIn) := do
  count fun c => { c with keys := c.keys ++ [key] }
  Adapter.loadPlain (·.depot.files) load b path

def copy (r : StandInRules) (b : StandIn) (d : DeviceId) : StateM Bench (Except Error StandIn) := do
  let n := (← get).counts.copied
  count fun c => { c with copied := c.copied + 1 }
  if r.copyLimit.any (· ≤ n) then return .error (.inference "clone refused")
  else return .ok { b with id := ← newId, device := d }

def acquire (r : StandInRules) (b : StandIn) : StateM Bench (Except Error Unit) := do
  if b.id ∈ r.failingBuffers then return .error (.buffers "out of device memory")
  else
    count fun c => { c with acquired := c.acquired + 1 }
    return .ok ()

-- Whether a parameter is there, with the suffix or without.
def asks (x : Input) (name : String) : Bool :=
  x.params.contains name || x.params.contains (name ++ Input.suffix)

def doubled (t : Tensor) : Tensor := { t with data := t.data.map (·.mul (.ofNat 2)) }

def marked (x : Input) (o : Output) : Output :=
  if asks x "soft" then o.setError "soft failure" else o

-- The images, doubled, and the number of the instance.
def answer (b : StandIn) (x : Input) : Output :=
  marked x ⟨x.images.entries.map (fun e => doubled e.2) ++ [⟨[1], [.ofNat b.id]⟩], none⟩

def process (b : StandIn) (x : Input) : StateM Bench Reply := do
  if asks x "panic" then return .panic
  else if asks x "fail" then return .error (.inference "mock failure")
  else if !b.isLoaded then return .error .notLoaded
  else
    count fun c => { c with processed := c.processed + 1 }
    return .output (answer b x)

def adapter (r : StandInRules) : Adapter Bench StandIn where
  load := load
  loadFile := loadFile
  supports _ d := return d ∉ r.unsupported
  configure b s := do
    count fun c => { c with sections := c.sections ++ [s] }
    return b
  moveTo b d := return { b with device := d }
  copy := copy r
  process := process
  acquire := acquire r
  release _ := count fun c => { c with released := c.released + 1 }
  blank _ index := (Input.blank index).withFixedNames r.fixNames
  describe b := "mock#" ++ toString b.id ++ " on " ++ b.device.text

def workshop (r : StandInRules) (kinds : List Backend) : Workshop Bench StandIn where
  registry := kinds.foldl (fun g k => g.register k (make r)) .empty
  adapter := adapter r
  resolver := housing.resolver

end StandIn
end Inference
