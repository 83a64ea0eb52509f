import Inference.Depot.Descriptors
import Inference.Runner.Recovery
import Inference.Sink.Basic

/-!
An engine is what all runners of a program share: the settings, the devices of the host, and a cache
whose budget is a share of the memory of the host.
-/

namespace Inference

structure Engine where
  settings : Settings
  catalog : Catalog
  -- The cache as it is at first.
  cache : Cache

namespace Engine

def ofSettings (s : Settings) (c : Catalog) : Except RunnerError Engine := do
  let s ← s.checked.mapError .part
  return ⟨s, c, .ofHost c.host s.cacheFraction⟩

-- The depot of an engine that is not given one. A source that is given comes before a mirror.
def depot (e : Engine) (source : Option Source) (fs : Files) : Except RunnerError Depot := do
  let d ← Depot.ofSettings e.settings fs
  return { d with cache := some e.cache, source := source.or d.source }

-- The best backend for a model on a device, and the devices that its instances go to.
def choose (e : Engine) (registered : BackendMask) (m : Descriptor) (id : DeviceId)
    (extraThreads : Nat) : Except RunnerError (Backend × Allocation) :=
  match e.catalog.chosen? m registered id with
  | none => .error (.part (.unsupportedBackend ("no available backend for model " ++ m.name)))
  | some k => .ok (k, e.catalog.instances id extraThreads k)

-- A plan for a model on the backend and the devices that suit it best.
def autoPlan {σ β : Type} (e : Engine) (w : Workshop σ β) (file : String) (m : Descriptor)
    (id : DeviceId) (extraThreads : Nat) (pinned : Bool) (s : σ) : Except RunnerError Plan := do
  let (k, allocation) ← e.choose w.registry.mask m id extraThreads
  return w.plan k file allocation m pinned s

-- The owner of a sink of the engine sleeps as the settings say.
def pollNanos (e : Engine) : Nat := e.settings.sinkPollNanos

end Engine
end Inference
