import Inference.Runner.Basic

/-!
Calls of a runner that are on their way at the same time, by name. A call that is held stays at its
instance until it is released.
-/

namespace Inference

structure Session (β : Type) where
  runner : Runner β
  -- The calls that are not joined yet.
  named : List (String × Nat)
  held : List Nat

namespace Session

variable {σ β : Type} (w : Workshop σ β)

def ofPlan (p : Plan) : Session β := ⟨.ofPlan p, [], []⟩

def number? (s : Session β) (name : String) : Option Nat := s.named.lookup name

-- The calls go on as far as they get without an answer of an instance.
def move (s : Session β) : Session β :=
  { s with runner := { s.runner with gate := s.runner.gate.settle } }

-- The calls that are not held go on as far as they get.
def settle (s : Session β) : StateM σ (Session β) := do
  let s := s.move
  return { s with
    runner := ← Runner.settle w (· ∈ s.held) s.runner.gate.calls.length s.runner }

-- A call that is waited for. It has no outcome if it cannot come to its end, and it is forgotten
-- once it has one.
def call (s : Session β) (x : Input) : StateM σ (Option Outcome × Session β) := do
  let (i, r) := s.runner.call (.process x)
  let s ← settle w { s with runner := r }
  match s.runner.outcome? i with
  | some o => return (some o, { s with runner := s.runner.forget i })
  | none => return (none, s)

def spawn (s : Session β) (name : String) (x : Input) (hold : Bool) : StateM σ (Session β) :=
  let (i, r) := s.runner.call (.process x)
  settle w { s with
    runner := r
    named := (name, i) :: s.named
    held := if hold then i :: s.held else s.held }

def release (s : Session β) (name : String) : StateM σ (Session β) :=
  settle w { s with held := s.held.filter fun i => s.number? name ≠ some i }

def join (s : Session β) (name : String) : Option Outcome × Session β :=
  let s := s.move
  (s.number? name >>= s.runner.outcome?, { s with named := s.named.filter (·.1 ≠ name) })

end Session
end Inference
