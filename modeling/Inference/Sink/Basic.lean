import Inference.Queue.Monitor

/-!
A sink hands items to workers that run at the same time. Producers put items into the queue of the
sink, workers take them out and give each to the processor, and the owner starts, drains and
destroys the sink. The owner needs the sink for itself: it begins nothing while a producer is busy,
and no producer begins while the owner is busy.

The state holds the counters and the flag that the parties read and write, where each party
stands between two atomic actions, and what has happened so far.
-/

namespace Inference

-- How the processor ends its work on an item.
inductive Verdict where
  | more | stop | panic
deriving DecidableEq, Repr

def Verdict.goesOn : Verdict → Bool
  | more => true
  | stop | panic => false

inductive Worker (α : Type) where
  -- Before the test of the flag that opens each round.
  | testing
  | popping (c : Caller α)
  -- With an item, before and after the second test of the flag.
  | holding (x : α)
  | admitted (x : α)
  | working (x : α)
  | finished (v : Verdict)
  -- Before it gives up its share of the items in flight; then comes a new round or the end.
  | releasing (again : Bool)
  | stopping (c : Caller α)
  | lowering
  | exited

inductive Producer (α : Type) where
  | raising (x : α)
  | testing (x : α)
  | pushing (x : α) (c : Caller α)
  | refusing (x : α)

-- How a call of the owner returns.
inductive Return where
  | started | startFailed | drained | destroyed
deriving DecidableEq, Repr

inductive Owner (α : Type) where
  | free
  | raising
  | reopening
  | spawning (left : Nat)
  -- Reads the flag, then the items in flight, until one of them ends the wait.
  | polling
  | counting
  -- The steps of a destruction, at whose end the call returns.
  | lowering (r : Return)
  | closing (r : Return) (c : Caller α)
  | clearing (r : Return) (c : Caller α)
  | joining (r : Return)
  | resetting (r : Return)

inductive Event (α : Type) where
  | accepted (x : α)
  | refused (x : α)
  | began (x : α)
  | ended (x : α) (v : Verdict)
  | returned (r : Return)

structure Sink (α : Type) where
  -- The number of workers of a start.
  threads : Nat
  queue : Queue α
  keep : Bool
  active : Nat
  inFlight : Nat
  -- The workers that are not joined yet.
  workers : List (Worker α)
  -- The producers whose call has not returned yet.
  producers : List (Producer α)
  owner : Owner α
  -- The latest comes first.
  history : List (Event α)

namespace Worker

variable {α : Type}

def isParkedAt (c : Cond) : Worker α → Bool
  | popping k | stopping k => k.isParkedAt c
  | _ => false

def wake (c : Cond) : Worker α → Worker α
  | popping k => popping (k.wake c)
  | stopping k => stopping (k.wake c)
  | w => w

-- A call to the queue that has returned leads on to what comes next.
def resumed : Worker α → Worker α
  | popping (.returned (.item (some x))) => holding x
  | popping (.returned _) => stopping (.entering .close)
  | stopping (.returned _) => lowering
  | w => w

def caller? : Worker α → Option (Caller α)
  | popping c | stopping c => some c
  | _ => none

-- The item that it has taken out of the queue and not finished.
def item? : Worker α → Option α
  | popping (.notifying _ (.item x)) => x
  | holding x | admitted x | working x => some x
  | _ => none

end Worker

namespace Producer

variable {α : Type}

def isParkedAt (c : Cond) : Producer α → Bool
  | pushing _ k => k.isParkedAt c
  | _ => false

def wake (c : Cond) : Producer α → Producer α
  | pushing x k => pushing x (k.wake c)
  | p => p

def caller? : Producer α → Option (Caller α)
  | pushing _ c => some c
  | _ => none

end Producer

namespace Owner

variable {α : Type}

def resumed : Owner α → Owner α
  | closing r (.returned _) => clearing r (.entering .clear)
  | clearing r (.returned _) => joining r
  | o => o

def caller? : Owner α → Option (Caller α)
  | closing _ c | clearing _ c => some c
  | _ => none

end Owner

namespace Sink

inductive Party where
  | worker (i : Nat)
  | producer (i : Nat)
  | owner

inductive Action (α : Type) where
  | push (x : α)
  | start
  | drain
  | destroy
  -- The next atomic action of a party, where there is no choice.
  | step (p : Party)
  -- The next notification of a party.
  | notify (p : Party) (target : Option Nat)
  -- The processor ends its work on the item of a worker.
  | finish (i : Nat) (v : Verdict)
  -- The owner cannot make the next worker.
  | spawnFails

variable {α : Type}

-- How long the owner sleeps between two looks while it drains, unless it is told otherwise.
def defaultPollNanos : Nat := 100000000

-- A bound of zero stands for no bound. There is one worker at least.
def create (bound threads : Nat) : Sink α where
  threads := max threads 1
  queue := if bound = 0 then .unbounded .arrival else .clamped .arrival bound
  keep := false
  active := 0
  inFlight := 0
  workers := []
  producers := []
  owner := .free
  history := []

def record (s : Sink α) (e : Event α) : Sink α := { s with history := e :: s.history }

def setWorker (s : Sink α) (i : Nat) (w : Worker α) : Sink α :=
  { s with workers := s.workers.set i w.resumed }

-- A producer whose call to the queue has returned is accepted or refused.
def setProducer (s : Sink α) (i : Nat) : Producer α → Sink α
  | .pushing x (.returned (.accepted true)) =>
    { s with producers := s.producers.eraseIdx i }.record (.accepted x)
  | .pushing x (.returned _) => { s with producers := s.producers.set i (.refusing x) }
  | p => { s with producers := s.producers.set i p }

def setOwner (s : Sink α) (o : Owner α) : Sink α := { s with owner := o.resumed }

def finishCall (s : Sink α) (r : Return) : Sink α := { s with owner := .free }.record (.returned r)

def stepWorker (s : Sink α) (i : Nat) : Option (Sink α) := do
  match ← s.workers[i]? with
  | .testing =>
    return s.setWorker i
      (if s.keep then .popping (.entering .pop) else .stopping (.entering .close))
  | .popping c =>
    let (q, c) ← c.lock? s.queue
    return { s with queue := q }.setWorker i (.popping c)
  | .holding x => return s.setWorker i (if s.keep then .admitted x else .releasing false)
  | .admitted x =>
    return ({ s with active := s.active + 1 }.setWorker i (.working x)).record (.began x)
  | .working _ => none
  | .finished v => return { s with active := s.active - 1 }.setWorker i (.releasing v.goesOn)
  | .releasing again =>
    return { s with inFlight := s.inFlight - 1 }.setWorker i
      (if again then .testing else .stopping (.entering .close))
  | .stopping c =>
    let (q, c) ← c.lock? s.queue
    return { s with queue := q }.setWorker i (.stopping c)
  | .lowering => return { s with keep := false }.setWorker i .exited
  | .exited => none

def stepProducer (s : Sink α) (i : Nat) : Option (Sink α) := do
  match ← s.producers[i]? with
  | .raising x => return { s with inFlight := s.inFlight + 1 }.setProducer i (.testing x)
  | .testing x =>
    return s.setProducer i (if s.queue.ended then .refusing x else .pushing x (.entering (.push x)))
  | .pushing x c =>
    let (q, c) ← c.lock? s.queue
    return { s with queue := q }.setProducer i (.pushing x c)
  | .refusing x =>
    return { s with
      inFlight := s.inFlight - 1
      producers := s.producers.eraseIdx i }.record (.refused x)

def allExited (s : Sink α) : Bool :=
  s.workers.all fun
    | .exited => true
    | _ => false

def stepOwner (s : Sink α) : Option (Sink α) :=
  match s.owner with
  | .free => none
  | .raising => some ({ s with keep := true }.setOwner .reopening)
  | .reopening =>
    some ({ s with queue := { s.queue with ended := false } }.setOwner (.spawning s.threads))
  | .spawning 0 => some (s.finishCall .started)
  | .spawning (n + 1) =>
    some ({ s with workers := s.workers ++ [Worker.testing] }.setOwner (.spawning n))
  | .polling => some (s.setOwner (if s.keep then .counting else .lowering .drained))
  | .counting => some (s.setOwner (if 0 < s.inFlight then .polling else .lowering .drained))
  | .lowering r => some ({ s with keep := false }.setOwner (.closing r (.entering .close)))
  | .closing r c => do
    let (q, c) ← c.lock? s.queue
    return { s with queue := q }.setOwner (.closing r c)
  | .clearing r c => do
    let (q, c) ← c.lock? s.queue
    return { s with queue := q }.setOwner (.clearing r c)
  | .joining r =>
    if s.allExited then some ({ s with workers := [] }.setOwner (.resetting r)) else none
  | .resetting r => some ({ s with inFlight := 0 }.finishCall r)

-- Workers wait for items and producers for room.
def wake (s : Sink α) (w : Wake) (target : Option Nat) : Option (Sink α) :=
  match w, target with
  | .all c, none =>
    some { s with
      workers := s.workers.map (Worker.wake c)
      producers := s.producers.map (Producer.wake c) }
  | .all _, some _ => none
  | .one c, none =>
    if s.workers.any (·.isParkedAt c) || s.producers.any (·.isParkedAt c) then none else some s
  | .one .notEmpty, some j =>
    if s.workers[j]?.any (·.isParkedAt .notEmpty) then
      some { s with workers := s.workers.modify j (.wake .notEmpty) }
    else none
  | .one .notFull, some j =>
    if s.producers[j]?.any (·.isParkedAt .notFull) then
      some { s with producers := s.producers.modify j (.wake .notFull) }
    else none

def notify (s : Sink α) (p : Party) (target : Option Nat) : Option (Sink α) := do
  match p with
  | .worker i =>
    match ← s.workers[i]? with
    | .popping c =>
      let (w, c) ← c.notify?
      return (← s.wake w target).setWorker i (.popping c)
    | .stopping c =>
      let (w, c) ← c.notify?
      return (← s.wake w target).setWorker i (.stopping c)
    | _ => none
  | .producer i =>
    match ← s.producers[i]? with
    | .pushing x c =>
      let (w, c) ← c.notify?
      return (← s.wake w target).setProducer i (.pushing x c)
    | _ => none
  | .owner =>
    match s.owner with
    | .closing r c =>
      let (w, c) ← c.notify?
      return (← s.wake w target).setOwner (.closing r c)
    | .clearing r c =>
      let (w, c) ← c.notify?
      return (← s.wake w target).setOwner (.clearing r c)
    | _ => none

def finish (s : Sink α) (i : Nat) (v : Verdict) : Option (Sink α) := do
  match ← s.workers[i]? with
  | .working x => return (s.setWorker i (.finished v)).record (.ended x v)
  | _ => none

-- A call of the owner begins.
def begin (s : Sink α) (o : Owner α) : Option (Sink α) :=
  match s.owner with
  | .free => if s.producers.isEmpty then some (s.setOwner o) else none
  | _ => none

def act (s : Sink α) : Action α → Option (Sink α)
  | .push x =>
    match s.owner with
    | .free => some { s with producers := s.producers ++ [.raising x] }
    | _ => none
  -- A sink whose workers are not joined counts as started.
  | .start =>
    if s.workers.isEmpty then s.begin .raising else (s.begin .free).map (·.finishCall .started)
  | .drain => s.begin .polling
  | .destroy => s.begin (.lowering .destroyed)
  | .step (.worker i) => s.stepWorker i
  | .step (.producer i) => s.stepProducer i
  | .step .owner => s.stepOwner
  | .notify p target => s.notify p target
  | .finish i v => s.finish i v
  | .spawnFails =>
    match s.owner with
    | .spawning (_ + 1) => some (s.setOwner (.lowering .startFailed))
    | _ => none

def machine : Machine (Sink α) (Action α) := ⟨act⟩

-- The items whose processing has ended, the latest first.
def handled (s : Sink α) : List α :=
  s.history.filterMap fun
    | .ended x _ => some x
    | _ => none

end Sink
end Inference
