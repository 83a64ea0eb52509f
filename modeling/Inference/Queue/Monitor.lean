import Inference.Machine
import Inference.Queue.Basic

/-!
A queue and the callers that use it at the same time. A caller takes the lock, and if it has to wait
it parks at a condition until it is notified; a notified caller takes the lock again and looks
again. Notifications are given after the lock is left. A notification for one caller goes to any
caller that is parked at its condition, and to none if there is none.
-/

namespace Inference

-- Where a caller stands.
inductive Caller (α : Type) where
  | entering (r : Request α)
  | parked (r : Request α) (c : Cond)
  | woken (r : Request α)
  | notifying (owed : List Wake) (a : Answer α)
  | returned (a : Answer α)

namespace Caller

variable {α : Type}

def isParkedAt (c : Cond) : Caller α → Bool
  | parked _ d => c = d
  | _ => false

def wake (c : Cond) : Caller α → Caller α
  | parked r d => if c = d then woken r else parked r d
  | k => k

-- After a lock section, or after a notification.
def owing (owed : List Wake) (a : Answer α) : Caller α :=
  if owed.isEmpty then returned a else notifying owed a

-- One lock section: what becomes of the queue and of the caller.
def takeTurn (q : Queue α) (r : Request α) : Queue α × Caller α :=
  match q.turn r with
  | .wait c => (q, parked r c)
  | .leave q owed a => (q, owing owed a)

-- A caller that is about to take the lock takes its turn.
def lock? (q : Queue α) : Caller α → Option (Queue α × Caller α)
  | entering r | woken r => some (takeTurn q r)
  | _ => none

-- The next notification that a caller gives.
def notify? : Caller α → Option (Wake × Caller α)
  | notifying (w :: owed) a => some (w, owing owed a)
  | _ => none

def answer? : Caller α → Option (Answer α)
  | returned a => some a
  | _ => none

end Caller

structure Monitor (α : Type) where
  queue : Queue α
  callers : List (Caller α)

namespace Monitor

inductive Action (α : Type) where
  | call (r : Request α)
  | lock (i : Nat)
  -- Caller `i` gives its next notification; one for a single caller goes to `target`.
  | notify (i : Nat) (target : Option Nat)

variable {α : Type}

def start (q : Queue α) : Monitor α := ⟨q, []⟩

def lock (m : Monitor α) (i : Nat) : Option (Monitor α) := do
  let (q, c) ← (← m.callers[i]?).lock? m.queue
  return ⟨q, m.callers.set i c⟩

-- Notifies all callers parked at a condition, or `target`, or nobody because nobody is there.
def wake (w : Wake) (target : Option Nat) (callers : List (Caller α)) :
    Option (List (Caller α)) :=
  match w, target with
  | .all c, none => some (callers.map (.wake c))
  | .all _, some _ => none
  | .one c, none => if callers.any (·.isParkedAt c) then none else some callers
  | .one c, some j =>
    if callers[j]?.any (·.isParkedAt c) then some (callers.modify j (.wake c)) else none

def notify (m : Monitor α) (i : Nat) (target : Option Nat) : Option (Monitor α) := do
  let (w, c) ← (← m.callers[i]?).notify?
  let callers ← wake w target m.callers
  return { m with callers := callers.set i c }

def act (m : Monitor α) : Action α → Option (Monitor α)
  | .call r => some { m with callers := m.callers ++ [.entering r] }
  | .lock i => m.lock i
  | .notify i target => m.notify i target

def machine : Machine (Monitor α) (Action α) := ⟨act⟩

-- A notification is still to be given, or a notified caller has not looked yet.
def pending (c : Cond) (m : Monitor α) : Bool :=
  m.callers.any fun
    | .woken (.push _) => c = .notFull
    | .woken _ => c = .notEmpty
    | .notifying owed _ => owed.any fun w => w = .one c || w = .all c
    | _ => false

-- What caller `i` does next, if it can go on. The first caller that is parked is woken.
def nextOf (m : Monitor α) (i : Nat) : Caller α → Option (Action α)
  | .entering _ | .woken _ => some (.lock i)
  | .notifying (.one c :: _) _ => some (.notify i (m.callers.findIdx? (·.isParkedAt c)))
  | .notifying (.all _ :: _) _ => some (.notify i none)
  | _ => none

def next? (m : Monitor α) : Option (Action α) :=
  m.callers.zipIdx.findSome? fun (c, i) => m.nextOf i c

-- Runs all callers until each has returned or is parked. A caller takes a turn, gives at most two
-- notifications, and takes one more turn for each notification of another caller.
def settle (m : Monitor α) : Monitor α :=
  machine.settle next? (4 * Nat.pow (m.callers.length + 1) 2) m

-- A new call, run as far as it gets; its number among the callers.
def spawn (m : Monitor α) (r : Request α) : Nat × Monitor α :=
  (m.callers.length, settle { m with callers := m.callers ++ [.entering r] })

def answer? (m : Monitor α) (i : Nat) : Option (Answer α) := m.callers[i]? >>= (·.answer?)

-- Whether a call would park now.
def wouldWait (m : Monitor α) (r : Request α) : Bool :=
  match m.queue.turn r with
  | .wait _ => true
  | .leave .. => false

end Monitor
end Inference
