import Inference.Error

/-!
First-in first-out queues that keep part of their items on disk. From a threshold on, a push first
writes the newest item of the queue to disk; an item that cannot be written stays in memory. An item
on disk is read when it is looked at or taken out.
-/

namespace Inference

-- How items are written to disk as records, and read again.
structure Medium (α ρ : Type) where
  write : α → Except Error ρ
  read : ρ → Except Error α

inductive Stored (α ρ : Type) where
  | memory (x : α)
  | disk (r : ρ)

namespace Stored

variable {α ρ : Type}

def spill (m : Medium α ρ) : Stored α ρ → Stored α ρ
  | memory x =>
    match m.write x with
    | .ok r => disk r
    | .error _ => memory x
  | disk r => disk r

def item (m : Medium α ρ) : Stored α ρ → Except Error α
  | memory x => .ok x
  | disk r => m.read r

def isOnDisk : Stored α ρ → Bool
  | memory _ => false
  | disk _ => true

end Stored

structure Backlog (α ρ : Type) where
  -- The oldest one comes first.
  entries : List (Stored α ρ)
  threshold : Nat

namespace Backlog

variable {α ρ : Type}

def defaultThreshold : Nat := 5

def empty (threshold : Nat) : Backlog α ρ := ⟨[], threshold⟩

-- Items that are queued already stay where they are.
def setThreshold (b : Backlog α ρ) (threshold : Nat) : Backlog α ρ := { b with threshold }

def size (b : Backlog α ρ) : Nat := b.entries.length

def isEmpty (b : Backlog α ρ) : Bool := b.entries.isEmpty

def onDisk (b : Backlog α ρ) : Nat := b.entries.countP (·.isOnDisk)

def spillLast (m : Medium α ρ) : List (Stored α ρ) → List (Stored α ρ)
  | [] => []
  | [e] => [e.spill m]
  | e :: es => e :: spillLast m es

def push (m : Medium α ρ) (b : Backlog α ρ) (x : α) : Backlog α ρ :=
  let es := if b.threshold ≤ b.size then spillLast m b.entries else b.entries
  { b with entries := es ++ [.memory x] }

-- The oldest item. One that was read from disk stays in memory.
def front (m : Medium α ρ) (b : Backlog α ρ) : Except Error (Option α) × Backlog α ρ :=
  match b.entries with
  | [] => (.ok none, b)
  | e :: es =>
    match e.item m with
    | .ok x => (.ok (some x), { b with entries := .memory x :: es })
    | .error f => (.error f, b)

-- The newest item, in the same way.
def back (m : Medium α ρ) (b : Backlog α ρ) : Except Error (Option α) × Backlog α ρ :=
  match b.entries.getLast? with
  | none => (.ok none, b)
  | some e =>
    match e.item m with
    | .ok x => (.ok (some x), { b with entries := b.entries.dropLast ++ [.memory x] })
    | .error f => (.error f, b)

-- An item that cannot be read is removed all the same.
def pop (m : Medium α ρ) (b : Backlog α ρ) : Except Error (Option α) × Backlog α ρ :=
  match b.entries with
  | [] => (.ok none, b)
  | e :: es => ((e.item m).map some, { b with entries := es })

def clear (b : Backlog α ρ) : Backlog α ρ := { b with entries := [] }

end Backlog
end Inference
