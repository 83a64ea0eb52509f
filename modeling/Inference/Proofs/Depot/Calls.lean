import Inference.Depot.Basic
import Inference.Proofs.Routine

/-!
The actions that the calls of a depot consist of. All that later modules need of a call is which
action comes next, and that the placing of a file is followed by the forgetting of this file.
-/

namespace Inference

namespace Depot

inductive Orderly {α : Type} : Routine Depot α → Prop
  | done (a) : Orderly (.done a)
  | look (f) {next} : (∀ d, Orderly (next d)) → Orderly (.step (fun d => (lookUp f d).2) next)
  | read {next} : (∀ d, Orderly (next d)) → Orderly (.step id next)
  | keep (f b) {next} : (∀ d, Orderly (next d)) → Orderly (.step (remember f b) next)
  | forget (f) {next} : (∀ d, Orderly (next d)) → Orderly (.step (forget f) next)
  | fetch (s f) {next} : (∀ d, Orderly (next d)) → Orderly (.step (fun d => (fetch s f d).2) next)
  | discard (f) {next} : (∀ d, Orderly (next d)) → Orderly (.step (discardPart f) next)
  | place (f) {next} : (∀ d, Orderly (next d)) →
      (∀ d, (placePart f d).1 = .ok () → (next d).Awaits (Depot.forget f)) →
      Orderly (.step (fun d => (placePart f d).2) next)
  | delete (f) {next} : (∀ d, Orderly (next d)) →
      Orderly (.step (fun d => (deleteFile f d).2) next)

namespace Orderly

variable {α β : Type} {p : Routine Depot α}

theorem bind {q : α → Routine Depot β} (hp : Orderly p) (hq : ∀ a, Orderly (q a)) :
    Orderly (p.bind q) := by
  induction hp
  case done a             => exact hq a
  case look f _ _ hi      => exact .look f hi
  case read hi            => exact .read hi
  case keep f b _ _ hi    => exact .keep f b hi
  case forget f _ _ hi    => exact .forget f hi
  case fetch s f _ _ hi   => exact .fetch s f hi
  case discard f _ _ hi   => exact .discard f hi
  case place f _ _ ha hi  => exact .place f hi fun d h => (ha d h).bind q
  case delete f _ _ hi    => exact .delete f hi

-- After a file has been placed, what was remembered of it is forgotten.
theorem place_bind (f : String) {q : Except FileError Unit → Routine Depot α}
    (hq : ∀ r, Orderly (q r)) (ha : (q (.ok ())).Awaits (Depot.forget f)) :
    Orderly ((Routine.atomic (placePart f)).bind q) := by
  refine .place f (fun _ => hq _) fun d hd => ?_
  change (q (placePart f d).1).Awaits _
  rwa [hd]

theorem load (f : String) : Orderly (load f) := by
  refine bind (.look f fun _ => .done _) fun b => ?_
  cases b
  case some => exact .done _
  case none =>
    refine bind (.read fun _ => .done _) fun r => ?_
    cases r
    case error => exact .done _
    case ok b  => exact .keep f b fun _ => .done _

theorem install (f : String) : Orderly (install f) := by
  refine place_bind f (fun r => ?_) rfl
  cases r
  case error => exact .done _
  case ok    => exact .forget f fun _ => .done _

theorem tryFetch (s : Source) (f : String) (tries n : ℕ) : Orderly (tryFetch s f tries n) := by
  induction n
  case zero => exact .done _
  case succ n hi =>
    have hgood (good : Bool) : Orderly (if good then Depot.install f else do
        .change (discardPart f)
        Depot.tryFetch s f tries n) := by
      cases good
      case false => exact .discard f fun _ => hi
      case true  => exact install f
    refine bind (.fetch s f fun _ => .done _) fun delivered => ?_
    cases delivered
    case false => exact hgood false
    case true  => exact .read fun d => hgood (hasPart f d)

theorem download (f : String) : Orderly (download f) := by
  refine bind (.read fun _ => .done _) fun r => ?_
  rcases r with ⟨_ | _, _ | s, n⟩
  case true.some => exact tryFetch s f n n
  all_goals exact .done _

theorem remove (f : String) : Orderly (remove f) := by
  refine bind (.forget f fun _ => .done _) fun _ => bind (.delete f fun _ => .done _) fun r => ?_
  split <;> exact .done _

end Orderly

end Depot
end Inference
