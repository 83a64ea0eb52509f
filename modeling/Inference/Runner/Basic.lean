import Inference.Gate.Schedule
import Inference.Runner.Recovery

/-!
A runner holds the instances of a model and leads inputs to them. Loading gives either all instances
that the allocation asks for or none.
-/

namespace Inference

structure Slot (β : Type) where
  adapter : β
  device : DeviceId
  -- The input that inputs for this instance begin with.
  template : Input

structure Runner (β : Type) where
  plan : Plan
  slots : List (Slot β)
  gate : Gate

namespace Workshop

variable {σ β : Type} (w : Workshop σ β) (p : Plan)

def copies (b : β) (d : DeviceId) : Nat → StateM σ (Except RunnerError (List β))
  | 0 => return .ok []
  | n + 1 => do
    match ← w.adapter.copy b d with
    | .error _ => return .error p.loadError
    | .ok c =>
      match ← copies b d n with
      | .error e => return .error e
      | .ok cs => return .ok (c :: cs)

-- One instance is loaded, and the others are copies of it.
def instancesOn (d : DeviceId) : Nat → StateM σ (Except RunnerError (List β))
  | 0 => return .ok []
  | n + 1 => do
    match ← w.makeInstance p d with
    | .error e => return .error e
    | .ok b =>
      match ← w.copies p b d n with
      | .error e => return .error e
      | .ok bs => return .ok (b :: bs)

-- Instances with their devices, in the order of the allocation.
def instancesFor : Allocation → StateM σ (Except RunnerError (List (DeviceId × β)))
  | [] => return .ok []
  | (d, n) :: rest => do
    match ← w.instancesOn p d n with
    | .error e => return .error e
    | .ok bs =>
      match ← instancesFor rest with
      | .error e => return .error e
      | .ok more => return .ok (bs.map (d, ·) ++ more)

def slot (index : Nat) (d : DeviceId) (b : β) : Slot β := ⟨b, d, w.adapter.blank b index⟩

def slots (l : List (DeviceId × β)) : List (Slot β) :=
  l.mapIdx fun index (d, b) => w.slot index d b

end Workshop

namespace Runner

variable {σ β : Type} (w : Workshop σ β)

def ofPlan (p : Plan) : Runner β := ⟨p, [], .unloaded p.pinned⟩

-- The runner is shut first, and what it held is dropped whether or not the new instances are made.
def load (r : Runner β) : StateM σ (Except RunnerError Unit × Runner β) := do
  match ← w.instancesFor r.plan r.plan.allocation with
  | .error e => return (.error e, { r with slots := [], gate := r.gate.emptied })
  | .ok l => return (.ok (), { r with
      slots := w.slots l
      gate := r.gate.emptied.loaded l.length })

def createInput (r : Runner β) : Option Input × Runner β :=
  match r.gate.create? with
  | none => (none, r)
  | some (index, g) =>
    (r.slots[index]?.map (·.template.withBackendIndex index), { r with gate := g })

-- Every instance is asked, also after one has failed.
def acquireBuffers (r : Runner β) : StateM σ (Except RunnerError Unit) := do
  let answers ← r.slots.mapM fun s => w.adapter.acquire s.adapter
  let failed := answers.countP fun
    | .ok _ => false
    | .error _ => true
  return if failed = 0 then .ok () else .error (.bufferAcquisition failed r.slots.length)

def releaseBuffers (r : Runner β) : StateM σ Unit :=
  r.slots.forM fun s => w.adapter.release s.adapter

def describe (r : Runner β) : List String := r.slots.map fun s => w.adapter.describe s.adapter

def instances (r : Runner β) : List (DeviceId × Nat) :=
  (r.slots.map (·.device)).zip r.gate.indices

def call (r : Runner β) (a : Gate.Action) : Nat × Runner β :=
  let (i, g) := r.gate.call a
  (i, { r with gate := g })

-- The instance that a call uses replies, and everybody goes on.
def reply (r : Runner β) (i : Nat) : StateM σ (Runner β) := do
  match r.gate.use? i with
  | none => return r
  | some (x, h) =>
    match r.slots[h]? with
    | none => return r
    | some s =>
      let answer ← w.adapter.process s.adapter x
      return { r with gate := ((r.gate.act (.finish i answer)).getD r.gate).settle }

-- Lets instances reply, except to the calls that are held, until nobody can go on.
def settle (held : Nat → Bool) : Nat → Runner β → StateM σ (Runner β)
  | 0, r => return r
  | n + 1, r =>
    match r.gate.calls.zipIdx.find? fun (s, i) => s.isInside && !held i with
    | none => return r
    | some (_, i) => do settle held n (← r.reply w i)

def outcome? (r : Runner β) (i : Nat) : Option Outcome := r.gate.outcome? i

-- Drops a call from the gate. The numbers of the calls before it stay.
def forget (r : Runner β) (i : Nat) : Runner β :=
  { r with gate := { r.gate with calls := r.gate.calls.eraseIdx i } }

end Runner
end Inference
