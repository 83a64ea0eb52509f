import Inference.Bytes
import Inference.Device.Host
import Inference.Dict

/-!
A cache of model buffers with a budget. Entries stand in the order of their last use, and an entry
that is added drives out the ones that were not used for the longest time, as many as it needs.
-/

namespace Inference

-- The buffers of a model by name.
abbrev Buffers := Dict Bytes

namespace Buffers

-- Each buffer counts with its name, in whole thousands of bytes.
def cost (b : Buffers) : Nat :=
  b.entries.foldr (fun e n => (e.2.length + e.1.utf8ByteSize) / 1000 + n) 0

end Buffers

structure CacheEntry where
  key : String
  buffers : Buffers
  cost : Nat
deriving DecidableEq

structure Cache where
  budget : Nat
  -- The one that was not used for the longest time comes first.
  entries : List CacheEntry
  total : Nat
deriving DecidableEq

namespace Cache

def ofBudget (budget : Nat) : Cache := ⟨budget, [], 0⟩

-- A share of the memory of the host, which is given in gigabytes, in thousands of bytes.
def ofHost (h : Host) (share : Single) : Cache :=
  ofBudget (((h.ramTotal.mul (.ofNat 1000000)).mul share.convert).truncate (Nat.pow 2 64 - 1))

def find? (c : Cache) (key : String) : Option CacheEntry := c.entries.find? (·.key = key)

def contains (c : Cache) (key : String) : Bool := (c.find? key).isSome

-- Drops entries from the front until the new cost fits, or none is left.
def evict (budget cost : Nat) : List CacheEntry → Nat → List CacheEntry × Nat
  | [], total => ([], total)
  | e :: es, total =>
    if budget < total + cost then evict budget cost es (total - e.cost) else (e :: es, total)

-- Nothing changes if the key is there or the buffers alone are over the budget.
def add (c : Cache) (key : String) (buffers : Buffers) : Bool × Cache :=
  let cost := buffers.cost
  if c.contains key || c.budget < cost then (false, c)
  else
    let (kept, total) := evict c.budget cost c.entries c.total
    (true, { c with entries := kept ++ [⟨key, buffers, cost⟩], total := total + cost })

-- The buffers that are found become the ones used last.
def fetch (c : Cache) (key : String) : Option Buffers × Cache :=
  match c.find? key with
  | none => (none, c)
  | some e => (some e.buffers, { c with entries := c.entries.filter (·.key ≠ key) ++ [e] })

def remove (c : Cache) (key : String) : Bool × Cache :=
  match c.find? key with
  | none => (false, c)
  | some e =>
    (true, { c with entries := c.entries.filter (·.key ≠ key), total := c.total - e.cost })

def clear (c : Cache) : Cache := ofBudget c.budget

def available (c : Cache) : Nat := c.budget - c.total

-- The share of the budget that is taken.
def fill (c : Cache) : Single :=
  if c.budget = 0 then .ofNat 0 else (Binary.ofNat c.total).div (.ofNat c.budget)

end Cache
end Inference
