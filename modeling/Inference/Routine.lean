import Inference.Machine

/-!
Programs made of atomic actions on a shared state. Alone a program runs from its first action to its
last; together with others it may be interrupted between any two of its actions.
-/

namespace Inference

inductive Routine (σ α : Type) where
  | done (a : α)
  -- The action, and what comes after it; the rest may hang on the state before the action.
  | step (act : σ → σ) (next : σ → Routine σ α)

namespace Routine

variable {σ α β : Type}

def bind (f : α → Routine σ β) : Routine σ α → Routine σ β
  | done a => f a
  | step act next => step act fun s => (next s).bind f

instance : Monad (Routine σ) where
  pure := done
  bind p f := p.bind f

-- One action with a result.
def atomic (f : σ → α × σ) : Routine σ α := step (fun s => (f s).2) fun s => done (f s).1

def change (f : σ → σ) : Routine σ Unit := atomic fun s => ((), f s)

def read (f : σ → α) : Routine σ α := atomic fun s => (f s, s)

-- Nobody else runs.
def alone : Routine σ α → σ → α × σ
  | done a, s => (a, s)
  | step act next, s => (next s).alone (act s)

def result? : Routine σ α → Option α
  | done a => some a
  | step .. => none

-- The next action and the state after it.
def advance? : Routine σ α → σ → Option (Routine σ α × σ)
  | done _, _ => none
  | step act next, s => some (next s, act s)

end Routine

structure Crowd (σ α : Type) where
  state : σ
  routines : List (Routine σ α)

namespace Crowd

inductive Action (σ α : Type) where
  | start (p : Routine σ α)
  | advance (i : Nat)

variable {σ α : Type}

def act (c : Crowd σ α) : Action σ α → Option (Crowd σ α)
  | .start p => some { c with routines := c.routines ++ [p] }
  | .advance i => do
    let (p, s) ← (← c.routines[i]?).advance? c.state
    return ⟨s, c.routines.set i p⟩

def machine : Machine (Crowd σ α) (Action σ α) := ⟨act⟩

-- No routine has an action left.
def isQuiet (c : Crowd σ α) : Bool := c.routines.all fun p => p.result?.isSome

end Crowd
end Inference
