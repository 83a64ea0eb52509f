import Inference.Error
import Inference.Model.Input
import Inference.Model.Output
import Inference.Queue.Monitor

/-!
The gate of a runner leads calls to its instances. A free instance waits as a ticket in a lane: in
the lane of its own if inputs are pinned to instances, and in one lane for all if they are not. A
call takes a ticket out of the lane of its input, uses the instance, and gives the ticket back.

To open and to shut the gate, and to give a ticket back, a call must have the lifecycle of the gate
for itself. Each shutting begins a new generation, and tickets of older generations do not come
back into a lane.
-/

namespace Inference

structure Ticket where
  handle : Nat
  generation : Nat
deriving DecidableEq, Repr

-- What an instance does with an input.
inductive Reply where
  | output (o : Output)
  | error (e : Error)
  | panic
deriving DecidableEq

-- How a call ends.
inductive Outcome where
  | done
  | refused (e : RunnerError)
  | replied (r : Reply)
deriving DecidableEq

-- What a call does while it has the lifecycle.
inductive Task where
  -- Goes on to the tasks of an opening, unless the gate is open.
  | check
  -- Goes on to push the ticket into the lane, if it is of this generation.
  | compare (lane : Nat) (t : Ticket)
  | ask (lane : Nat) (c : Caller Ticket)
  | assign (handle index : Nat)
  | open
  | shut
  | advance

-- Where a call stands between two atomic actions.
inductive Stage where
  | arriving (x : Input)
  | popping (x : Input) (c : Caller Ticket)
  -- With a ticket, before the second test whether the gate is open.
  | holding (x : Input) (t : Ticket)
  -- Waits until nobody else uses the instance.
  | waiting (x : Input) (t : Ticket)
  | inside (x : Input) (t : Ticket)
  -- Waits for the lifecycle.
  | queued (todo : List Task) (o : Outcome)
  -- Has the lifecycle.
  | working (todo : List Task) (o : Outcome)
  | returned (o : Outcome)

structure Gate where
  -- The number of instances.
  size : Nat
  pinned : Bool
  lanes : List (Queue Ticket)
  -- The backend index of each instance.
  indices : List Nat
  isOpen : Bool
  -- How often the gate was shut. A counter of 64 bits would wrap after `2 ^ 64` times, which is out
  -- of reach.
  generation : Nat
  -- The instance that the next input is made for, if inputs are pinned.
  cursor : Nat
  -- The indices of the inputs that were made, the latest first.
  made : List Nat
  calls : List Stage

namespace Stage

def isWorking : Stage → Bool
  | working .. => true
  | _ => false

def isInside : Stage → Bool
  | inside .. => true
  | _ => false

def uses (handle : Nat) : Stage → Bool
  | inside _ t => t.handle = handle
  | _ => false

def outcome? : Stage → Option Outcome
  | returned o => some o
  | _ => none

-- A caller that has returned leads on to what comes next.
def afterPop (x : Input) : Caller Ticket → Stage
  | .returned (.item (some t)) => holding x t
  | .returned _ => returned (.refused .stopped)
  | c => popping x c

def afterAsk (lane : Nat) (todo : List Task) (o : Outcome) : Caller Ticket → Stage
  | .returned _ => working todo o
  | c => working (.ask lane c :: todo) o

end Stage

namespace Gate

inductive Action where
  | process (x : Input)
  | open
  | shut
  -- The next input is made.
  | create
  -- The next atomic action of a call, where there is no choice.
  | step (i : Nat)
  -- The next notification of a call.
  | notify (i : Nat) (target : Option Nat)
  -- The instance that a call uses is done with the input.
  | finish (i : Nat) (r : Reply)

-- A gate before anything is loaded.
def unloaded (pinned : Bool) : Gate where
  size := 0
  pinned := pinned
  lanes := []
  indices := []
  isOpen := false
  generation := 0
  cursor := 0
  made := []
  calls := []

-- Shut, and without instances.
def emptied (g : Gate) : Gate := { unloaded g.pinned with generation := g.generation + 1 }

-- With new instances, not opened yet.
def loaded (g : Gate) (size : Nat) : Gate :=
  { g with
    size
    lanes := List.replicate (if g.pinned then size else 1) (.unbounded .arrival)
    indices := List.range size }

def laneOf (g : Gate) (index : Nat) : Nat := if g.pinned then index else 0

-- The tickets that wait in the lanes.
def available (g : Gate) : Nat := g.lanes.foldr (·.size + ·) 0

-- The index of the next input, and the gate after it is made.
def create? (g : Gate) : Option (Nat × Gate) :=
  if g.size = 0 then none
  else
    let index := if g.pinned then g.cursor % g.size else 0
    some (index, { g with
      cursor := if g.pinned then (index + 1) % g.size else g.cursor
      made := index :: g.made })

def setCall (g : Gate) (i : Nat) (s : Stage) : Gate := { g with calls := g.calls.set i s }

def addCall (g : Gate) (s : Stage) : Gate := { g with calls := g.calls ++ [s] }

def setLane (g : Gate) (lane : Nat) (q : Queue Ticket) : Gate :=
  { g with lanes := g.lanes.set lane q }

-- Each lane anew, then each instance into its lane.
def opening (g : Gate) : List Task :=
  (List.range g.lanes.length).flatMap (fun l =>
    [.ask l (.entering .clear), .ask l (.entering .reopen)]) ++
  (List.range g.size).flatMap (fun h =>
    [.assign h (g.laneOf h), .ask (g.laneOf h) (.entering (.push ⟨h, g.generation⟩))]) ++
  [.open]

def shutting (g : Gate) : List Task :=
  [.shut, .advance] ++ (List.range g.lanes.length).flatMap fun l =>
    [.ask l (.entering .close), .ask l (.entering .clear)]

def giveBack (g : Gate) (x : Input) (t : Ticket) (o : Outcome) : Stage :=
  .queued [.compare (g.laneOf x.backendIndex) t] o

-- Whether a call may go on into the lane of its input.
def accept (g : Gate) (x : Input) : Stage :=
  if g.size = 0 then .returned (.refused .noInstances)
  else if !g.isOpen then .returned (.refused .notInitialized)
  else
    let lane := g.laneOf x.backendIndex
    if lane < g.lanes.length then .popping x (.entering .pop)
    else .returned (.refused (.invalidBackendIndex lane g.lanes.length))

def stepTask (g : Gate) (i : Nat) (todo : List Task) (o : Outcome) : Task → Option Gate
  | .check => some (g.setCall i (.working (if g.isOpen then todo else g.opening ++ todo) o))
  | .compare lane t =>
    some (g.setCall i (.working
      (if t.generation = g.generation then .ask lane (.entering (.push t)) :: todo else todo) o))
  | .ask lane c => do
    let (q, c) ← c.lock? (← g.lanes[lane]?)
    return (g.setLane lane q).setCall i (.afterAsk lane todo o c)
  | .assign h index =>
    some ({ g with indices := g.indices.set h index }.setCall i (.working todo o))
  | .open => some ({ g with isOpen := true }.setCall i (.working todo o))
  | .shut => some ({ g with isOpen := false }.setCall i (.working todo o))
  | .advance => some ({ g with generation := g.generation + 1 }.setCall i (.working todo o))

def step (g : Gate) (i : Nat) : Option Gate := do
  match ← g.calls[i]? with
  | .arriving x => return g.setCall i (g.accept x)
  | .popping x c =>
    let lane := g.laneOf x.backendIndex
    let (q, c) ← c.lock? (← g.lanes[lane]?)
    return (g.setLane lane q).setCall i (.afterPop x c)
  | .holding x t =>
    return g.setCall i (if g.isOpen then .waiting x t else g.giveBack x t (.refused .stopped))
  | .waiting x t =>
    if g.calls.any (·.uses t.handle) then none else return g.setCall i (.inside x t)
  | .inside .. => none
  | .queued todo o =>
    if g.calls.any (·.isWorking) then none else return g.setCall i (.working todo o)
  | .working [] o => return g.setCall i (.returned o)
  | .working (t :: todo) o => g.stepTask i todo o t
  | .returned _ => none

-- Whether a call is parked at a condition of a lane.
def isParkedAt (g : Gate) (lane : Nat) (c : Cond) : Stage → Bool
  | .popping x k => g.laneOf x.backendIndex = lane && k.isParkedAt c
  | _ => false

def wakeStage (g : Gate) (lane : Nat) (c : Cond) : Stage → Stage
  | .popping x k => .popping x (if g.laneOf x.backendIndex = lane then k.wake c else k)
  | s => s

-- Gives a notification to the calls at a lane.
def wake (g : Gate) (lane : Nat) (w : Wake) (target : Option Nat) : Option Gate :=
  match w, target with
  | .all c, none => some { g with calls := g.calls.map (g.wakeStage lane c) }
  | .all _, some _ => none
  | .one c, none => if g.calls.any (g.isParkedAt lane c) then none else some g
  | .one c, some j =>
    if g.calls[j]?.any (g.isParkedAt lane c) then
      some { g with calls := g.calls.modify j (g.wakeStage lane c) }
    else none

def notify (g : Gate) (i : Nat) (target : Option Nat) : Option Gate := do
  match ← g.calls[i]? with
  | .popping x c =>
    let (w, c) ← c.notify?
    return (← g.wake (g.laneOf x.backendIndex) w target).setCall i (.afterPop x c)
  | .working (.ask lane c :: todo) o =>
    let (w, c) ← c.notify?
    return (← g.wake lane w target).setCall i (.afterAsk lane todo o c)
  | _ => none

def finish (g : Gate) (i : Nat) (r : Reply) : Option Gate := do
  match ← g.calls[i]? with
  | .inside x t => return g.setCall i (g.giveBack x t (.replied r))
  | _ => none

def act (g : Gate) : Action → Option Gate
  | .process x => some (g.addCall (.arriving x))
  | .open => some (g.addCall (.queued [.check] .done))
  | .shut => some (g.addCall (.queued g.shutting .done))
  | .create => g.create?.map (·.2)
  | .step i => g.step i
  | .notify i target => g.notify i target
  | .finish i r => g.finish i r

def machine : Machine Gate Action := ⟨act⟩

end Gate
end Inference
