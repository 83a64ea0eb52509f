import Inference.Sink.Basic

/-!
One schedule of a sink: the workers go first, then the producers, then the owner. An item stays in
the processor as long as there is no verdict on it.
-/

namespace Inference.Sink

variable {α : Type}

def caller? (s : Sink α) : Party → Option (Caller α)
  | .worker i => s.workers[i]? >>= (·.caller?)
  | .producer i => s.producers[i]? >>= (·.caller?)
  | .owner => s.owner.caller?

-- The first party that waits for a notification.
def target (s : Sink α) : Wake → Option Nat
  | .all _ => none
  | .one .notEmpty => s.workers.findIdx? (·.isParkedAt .notEmpty)
  | .one .notFull => s.producers.findIdx? (·.isParkedAt .notFull)

def verdict? (s : Sink α) (processor : α → Option Verdict) (i : Nat) : Option Verdict :=
  match s.workers[i]? with
  | some (.working x) => processor x
  | _ => none

-- What a party does next, if it can go on.
def nextOf (s : Sink α) (processor : α → Option Verdict) (p : Party) : Option (Action α) :=
  match s.caller? p >>= (·.notify?), p with
  | some (w, _), _ => some (.notify p (s.target w))
  | none, .worker i =>
    if (s.stepWorker i).isSome then some (.step p) else (s.verdict? processor i).map (.finish i)
  | none, _ => if (s.act (.step p)).isSome then some (.step p) else none

def parties (s : Sink α) : List Party :=
  (List.range s.workers.length).map .worker ++ (List.range s.producers.length).map .producer ++
    [.owner]

def next? (processor : α → Option Verdict) (s : Sink α) : Option (Action α) :=
  s.parties.findSome? (s.nextOf processor)

-- Runs until nobody can go on. An item passes through fewer than sixteen actions, and so does a
-- worker besides those for its items, a producer, and a call of the owner.
def settle (processor : α → Option Verdict) (s : Sink α) : Sink α :=
  machine.settle (next? processor)
    (16 * (s.queue.size + s.workers.length + s.producers.length + 2 * s.threads + 2)) s

-- A call, run as far as it gets.
def call (processor : α → Option Verdict) (s : Sink α) (a : Action α) : Sink α :=
  match s.act a with
  | some s => s.settle processor
  | none => s

-- Lets a number of items end that are in the processor, one after the other; none follows them out.
def permit (verdict : α → Verdict) : Nat → Sink α → Sink α
  | 0, s => s
  | n + 1, s =>
    match (List.range s.workers.length).findSome? fun i =>
      (s.verdict? (fun x => some (verdict x)) i).map (Action.finish i) with
    | some a => permit verdict n (s.call (fun _ => none) a)
    | none => s

-- How the last call has returned.
def answer? (s : Sink α) : Option Bool :=
  s.history.findSome? fun
    | .accepted _ => some true
    | .refused _ => some false
    | _ => none

end Inference.Sink
