import Inference.Gate.Basic

/-!
One schedule of a gate: the call that came first goes on first, as far as it gets. A call that uses
an instance stays there until the instance has replied.
-/

namespace Inference.Gate

-- The lane and the caller of a call that uses a lane.
def caller? (g : Gate) : Stage → Option (Nat × Caller Ticket)
  | .popping x c => some (g.laneOf x.backendIndex, c)
  | .working (.ask lane c :: _) _ => some (lane, c)
  | _ => none

-- The first call that waits for a notification.
def target (g : Gate) (lane : Nat) : Wake → Option Nat
  | .all _ => none
  | .one c => g.calls.findIdx? (g.isParkedAt lane c)

-- What call `i` does next, if it can go on.
def nextOf (g : Gate) (i : Nat) (s : Stage) : Option Action :=
  match g.caller? s >>= fun (lane, c) => c.notify?.map fun n => (lane, n.1) with
  | some (lane, w) => some (.notify i (g.target lane w))
  | none => if s.outcome?.isNone && (g.step i).isSome then some (.step i) else none

def next? (g : Gate) : Option Action := g.calls.zipIdx.findSome? fun (s, i) => g.nextOf i s

-- A call has at most two tasks for each lane and for each instance, a task takes at most three
-- actions, and a call besides its tasks fewer than eight.
def longest (g : Gate) : Nat := 8 * (g.lanes.length + g.size + 2)

-- Runs until nobody can go on.
def settle (g : Gate) : Gate := machine.settle next? ((g.calls.length + 1) * g.longest) g

-- A call, run as far as it gets with those that it wakes; its number among the calls.
def call (g : Gate) (a : Action) : Nat × Gate := (g.calls.length, ((g.act a).getD g).settle)

def outcome? (g : Gate) (i : Nat) : Option Outcome := g.calls[i]? >>= (·.outcome?)

-- The input of a call that uses an instance, and the instance.
def use? (g : Gate) (i : Nat) : Option (Input × Nat) :=
  match g.calls[i]? with
  | some (Stage.inside x t) => some (x, t.handle)
  | _ => none

end Inference.Gate
