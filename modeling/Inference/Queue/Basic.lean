/-!
Work queues with a bound and an end. A caller does its work while it holds the lock of the queue: it
either finds that it has to wait for a condition, or it leaves the queue as it shall be, with the
notifications that it owes to the waiting callers.

An ended queue gives nothing out and takes nothing into a bounded queue, but keeps its items; it can
be opened again.
-/

namespace Inference

-- Which item leaves first: the oldest, or a greatest one.
inductive Order (α : Type) where
  | arrival
  | priority (le : α → α → Bool)

namespace Order

variable {α : Type}

-- A greatest item and the others. Which of several equal items leaves first is not promised: this
-- takes the oldest of them, where a heap may take any.
def takeGreatest (le : α → α → Bool) : List α → Option (α × List α)
  | [] => none
  | x :: xs =>
    match takeGreatest le xs with
    | none => some (x, [])
    | some (y, ys) => if le y x then some (x, xs) else some (y, x :: ys)

-- The next item, and what is left without it. Items are listed in the order of their arrival.
def take? : Order α → List α → Option (α × List α)
  | _, [] => none
  | arrival, x :: xs => some (x, xs)
  | priority le, x :: xs => takeGreatest le (x :: xs)

end Order

structure Queue (α : Type) where
  order : Order α
  capacity : Option Nat
  items : List α
  ended : Bool

inductive Cond where
  | notEmpty | notFull
deriving DecidableEq, Repr

-- A notification goes to one waiting caller or to all of them.
inductive Wake where
  | one (c : Cond)
  | all (c : Cond)
deriving DecidableEq, Repr

inductive Request (α : Type) where
  | push (x : α)
  | pop
  | tryPop
  | front
  | clear
  | close
  | reopen

inductive Answer (α : Type) where
  | accepted (b : Bool)
  | item (x : Option α)
  | done

-- What becomes of a caller that holds the lock.
inductive Turn (α : Type) where
  | wait (c : Cond)
  | leave (q : Queue α) (owed : List Wake) (a : Answer α)

namespace Queue

variable {α : Type}

def unbounded (order : Order α) : Queue α := ⟨order, none, [], false⟩

-- A bound leaves room for one item at least.
def clamped (order : Order α) (capacity : Nat) : Queue α :=
  ⟨order, some (max capacity 1), [], false⟩

def size (q : Queue α) : Nat := q.items.length

def isFull (q : Queue α) : Bool := q.capacity.any (· ≤ q.size)

-- Whether nothing can be taken out.
def isEmpty (q : Queue α) : Bool := q.ended || q.items.isEmpty

-- A queue without a bound takes an item even after its end.
def push (q : Queue α) (x : α) : Turn α :=
  if q.isFull && !q.ended then .wait .notFull
  else if q.capacity.isSome && q.ended then .leave q [] (.accepted false)
  else .leave { q with items := q.items ++ [x] } [.one .notEmpty] (.accepted true)

def take (q : Queue α) : Turn α :=
  match q.order.take? q.items with
  | none => .leave q [] (.item none)
  | some (x, rest) => .leave { q with items := rest } [.one .notFull] (.item (some x))

def turn (q : Queue α) : Request α → Turn α
  | .push x => q.push x
  | .pop =>
    if q.ended then .leave q [] (.item none)
    else if q.items.isEmpty then .wait .notEmpty
    else q.take
  | .tryPop => if q.ended then .leave q [] (.item none) else q.take
  | .front =>
    if q.ended then .leave q [] (.item none)
    else if q.items.isEmpty then .wait .notEmpty
    else .leave q [] (.item ((q.order.take? q.items).map (·.1)))
  | .clear => .leave { q with items := [] } [.all .notFull] .done
  | .close => .leave { q with ended := true } [.all .notEmpty, .all .notFull] .done
  | .reopen => .leave { q with ended := false } [] .done

end Queue
end Inference
