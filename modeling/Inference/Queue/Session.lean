import Inference.Queue.Monitor

/-!
Calls to a queue that are on their way at the same time, by name.
-/

namespace Inference

structure QueueSession (α : Type) where
  monitor : Monitor α
  -- The calls that are not joined yet.
  named : List (String × Nat)

namespace QueueSession

variable {α : Type}

def start (q : Queue α) : QueueSession α := ⟨.start q, []⟩

def queue (s : QueueSession α) : Queue α := s.monitor.queue

def isQuiet (s : QueueSession α) : Bool := s.named.isEmpty

def spawn (s : QueueSession α) (name : String) (r : Request α) : QueueSession α :=
  let (i, m) := s.monitor.spawn r
  ⟨m, (name, i) :: s.named⟩

def join (s : QueueSession α) (name : String) : Option (Answer α) × QueueSession α :=
  (s.named.lookup name >>= s.monitor.answer?,
    { s with named := s.named.filter (·.1 ≠ name) })

-- A call that is waited for. It is not made if nobody is there who could end its wait, and it is
-- forgotten once it has returned.
def call (s : QueueSession α) (r : Request α) : Option (Answer α) × QueueSession α :=
  if s.isQuiet && s.monitor.wouldWait r then (none, s)
  else
    let (i, m) := s.monitor.spawn r
    match m.answer? i with
    | some a => (some a, { s with monitor := { m with callers := m.callers.eraseIdx i } })
    | none => (none, { s with monitor := m })

end QueueSession
end Inference
