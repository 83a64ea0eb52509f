import Inference.Queue.Monitor

/-!
Pools of interchangeable resources. A pool is a queue without a bound: to hand a resource out is to
take the oldest item, and to give it back is to push it. A guard holds a resource for its owner and
gives it back at the end, unless the resource was detached from it.
-/

namespace Inference

abbrev Pool (α : Type) := Monitor α

namespace Pool

variable {α : Type}

def empty : Pool α := .start (.unbounded .arrival)

def add (x : α) : Request α := .push x

def release (x : α) : Request α := .push x

def acquire : Request α := .pop

def tryAcquire : Request α := .tryPop

-- The resources count as free also after the end of the pool.
def canAcquire (p : Pool α) : Bool := 0 < p.queue.size

end Pool

structure Guard (α : Type) where
  resource : Option α

namespace Guard

variable {α : Type}

def hold (x : α) : Guard α := ⟨some x⟩

def set (g : Guard α) (x : α) : Guard α := ⟨g.resource.map fun _ => x⟩

-- What the end of a guard asks of the pool.
def drop (g : Guard α) : Option (Request α) := g.resource.map Pool.release

def detach (g : Guard α) : Option α × Guard α := (g.resource, ⟨none⟩)

end Guard

-- How the caller of a call has the resource that the call brings to the pool or got from it.
inductive Hold where
  | hand | guard
deriving DecidableEq, Repr

-- A pool, the calls to it by any callers, and what becomes of the resources. A resource that is on
-- its way to the pool is in the hand of its caller.
structure Custody (α : Type) where
  pool : Pool α
  -- By call; none once the resource is given back.
  holds : List (Option Hold)
  discarded : List α

namespace Custody

-- What callers do. A call begins and is on its way from then on, and a resource that a call got is
-- known by the place of this call.
inductive Move (α : Type) where
  | add (x : α)
  | acquire
  | tryAcquire
  | guard
  | release (i : Nat)
  -- A guard also ends where its owner fails.
  | drop (i : Nat)
  | detach (i : Nat)
  | close
  | reopen
  | clear
  | lock (i : Nat)
  | notify (i : Nat) (target : Option Nat)

variable {α : Type}

def start : Custody α := ⟨.empty, [], []⟩

-- The resource that call `i` got and that is not given back, if its caller has it in this way.
def held? (c : Custody α) (h : Hold) (i : Nat) : Option α :=
  if c.holds[i]? = some (some h) then
    match c.pool.answer? i with
    | some (.item x) => x
    | _ => none
  else none

def guard? (c : Custody α) (i : Nat) : Option (Guard α) := (c.held? .guard i).map .hold

def setHold (c : Custody α) (i : Nat) (h : Option Hold) : Custody α :=
  { c with holds := c.holds.set i h }

def call (c : Custody α) (h : Hold) (r : Request α) : Custody α :=
  { c with
    pool := { c.pool with callers := c.pool.callers ++ [.entering r] }
    holds := c.holds ++ [some h] }

-- What is thrown away in the lock section of call `i`.
def swept (c : Custody α) (i : Nat) : List α :=
  match c.pool.callers[i]? with
  | some (.entering .clear) => c.pool.queue.items
  | _ => []

def act (c : Custody α) : Move α → Option (Custody α)
  | .add x => some (c.call .hand (Pool.add x))
  | .acquire => some (c.call .hand Pool.acquire)
  | .tryAcquire => some (c.call .hand Pool.tryAcquire)
  | .guard => some (c.call .guard Pool.acquire)
  | .release i => do return (c.setHold i none).call .hand (Pool.release (← c.held? .hand i))
  | .drop i => do return (c.setHold i none).call .hand (← (← c.guard? i).drop)
  | .detach i => do return c.setHold i ((← c.guard? i).detach.1.map fun _ => .hand)
  | .close => some (c.call .hand .close)
  | .reopen => some (c.call .hand .reopen)
  | .clear => some (c.call .hand .clear)
  | .lock i => do
    return { c with pool := ← c.pool.lock i, discarded := c.discarded ++ c.swept i }
  | .notify i target => do return { c with pool := ← c.pool.notify i target }

def machine : Machine (Custody α) (Move α) := ⟨act⟩

end Custody
end Inference
