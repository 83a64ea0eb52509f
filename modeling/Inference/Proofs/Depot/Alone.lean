import Inference.Proofs.Depot.Staleness
import Inference.Proofs.Files

/-!
What the calls of a depot do when nobody else runs. The cache is all that a load changes, and it has
no say in the other calls.
-/

namespace Inference

namespace Depot

variable {d d' : Depot} {f : String} {s : Source} {tries n : ℕ}

-- The buffers are given, and all that was not found in the cache is remembered.
theorem alone_load (f : String) (d : Depot) : (load f).alone d =
    match (lookUp f d).1, (lookUp f d).2.reading f with
    | some b, _        => (.ok b, (lookUp f d).2)
    | none,   .ok b    => (.ok b, remember f b (lookUp f d).2)
    | none,   .error e => (.error (.part e), (lookUp f d).2) := by
  simp only [load, Routine.alone_bind, Routine.alone_atomic]
  cases (lookUp f d).1
  case some b => rfl
  case none =>
    simp only [Routine.alone_bind, Routine.alone_read, reading]
    cases readArtifact (lookUp f d).2.files ((lookUp f d).2.path f) <;> rfl

theorem alone_install (f : String) (d : Depot) : (install f).alone d =
    match (placePart f d).1 with
    | .ok _    => (.ok (), forget f (placePart f d).2)
    | .error _ => (.error .io, (placePart f d).2) := by
  simp only [install, Routine.alone_bind, Routine.alone_atomic]
  cases (placePart f d).1 <;> rfl

-- Whether a try leaves a part that is taken for an artifact.
def Delivers (s : Source) (f : String) (d : Depot) : Prop :=
  (fetch s f d).1 ∧ hasPart f (fetch s f d).2

instance : Decidable (Delivers s f d) := inferInstanceAs (Decidable (_ ∧ _))

theorem alone_tryFetch (s : Source) (f : String) (tries n : ℕ) (d : Depot) :
    (tryFetch s f tries (n + 1)).alone d =
      if Delivers s f d then (install f).alone (fetch s f d).2
      else (tryFetch s f tries n).alone (discardPart f (fetch s f d).2) := by
  simp only [tryFetch, Routine.alone_bind, Routine.alone_atomic, Delivers]
  by_cases hf : (fetch s f d).1
  case neg => simp [hf]
  case pos => by_cases hp : hasPart f (fetch s f d).2 <;> simp [hf, hp]

theorem alone_download (f : String) (d : Depot) : (download f).alone d =
    match d.allowed, d.source with
    | false, _      => (.error (.downloadsDisabled f), d)
    | true,  none   => (.error (.noFetcher f), d)
    | true,  some s => (tryFetch s f d.attempts d.attempts).alone d := by
  simp only [download, Routine.alone_bind, Routine.alone_read]
  cases d.allowed <;> cases d.source <;> rfl

theorem alone_remove (f : String) (d : Depot) : (remove f).alone d =
    (match (deleteFile f (forget f d)).1 with
      | .ok _ | .error .notFound => .ok ()
      | .error _ => .error .io, (deleteFile f (forget f d)).2) := by
  simp only [remove, Routine.alone_bind, Routine.alone_change, Routine.alone_atomic]
  cases (deleteFile f (forget f d)).1
  case ok      => rfl
  case error e => cases e <;> rfl

end Depot

end Inference
