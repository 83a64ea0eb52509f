import Inference.Queue.Monitor

/-!
Items on their way through a queue. Each item is pushed in turn, and whenever a push has to wait a
consumer takes an item; at the end the consumers take the rest.
-/

namespace Inference

structure Relay (α : Type) where
  queue : Queue α
  -- The latest comes first.
  arrived : List α
  -- The greatest length of the queue so far.
  longest : Nat

namespace Relay

variable {α : Type}

def note (q : Queue α) (t : Relay α) : Relay α := ⟨q, t.arrived, max t.longest q.size⟩

-- A consumer takes an item, if there is one.
def take (t : Relay α) : Relay α :=
  match t.queue.turn .pop with
  | .leave q _ (.item (some x)) => note q { t with arrived := x :: t.arrived }
  | _ => t

def push (t : Relay α) (x : α) : Relay α :=
  let t := if t.queue.isFull then t.take else t
  match t.queue.turn (.push x) with
  | .leave q _ _ => note q t
  | .wait _ => t

def takeAll : Nat → Relay α → Relay α
  | 0, t => t
  | n + 1, t => takeAll n t.take

def run (q : Queue α) (items : List α) : Relay α :=
  let t := items.foldl push ⟨q, [], 0⟩
  takeAll t.queue.size t

end Relay
end Inference
