import Inference.Depot.Basic
import Inference.Runner.Recovery

/-!
A depot as the place where a runner gets its artifacts from.
-/

namespace Inference

-- A state that a depot is a part of.
structure Housing (σ : Type) where
  depot : σ → Depot
  withDepot : σ → Depot → σ

namespace Housing

variable {σ α : Type} (h : Housing σ)

-- Runs a routine of the depot to its end.
def run (p : Routine Depot α) : StateM σ α := fun s =>
  let (a, d) := p.alone (h.depot s)
  (a, h.withDepot s d)

def resolver : Resolver σ where
  path s file := (h.depot s).path file
  load file := h.run (Depot.load file)
  remove file := h.run (Depot.remove file)
  download _ file := h.run (Depot.download file)

end Housing
end Inference
