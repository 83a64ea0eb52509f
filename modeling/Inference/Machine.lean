/-!
Systems of several parties that run at the same time. A system is given by what each atomic action
does to its state; an action that cannot happen in a state has no result there.
-/

namespace Inference

structure Machine (σ α : Type) where
  act : σ → α → Option σ

namespace Machine

variable {σ α : Type} (m : Machine σ α)

inductive Reaches (s : σ) : σ → Prop
  | refl : Reaches s s
  | step : Reaches s t → m.act t a = some u → Reaches s u

def run : σ → List α → Option σ
  | s, [] => some s
  | s, a :: as => m.act s a >>= fun t => run t as

-- Does what a schedule picks, so many times at most, until it picks nothing that can happen.
def settle (pick : σ → Option α) : Nat → σ → σ
  | 0, s => s
  | n + 1, s =>
    match pick s >>= m.act s with
    | some t => settle pick n t
    | none => s

end Machine
end Inference
