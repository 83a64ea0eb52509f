import Inference.Queue.Basic
import Mathlib.Data.List.Nodup

/-!
A queue is a shelf from which items leave in order. On the shelf every item that is accepted has a
number, and what has become of it is written down under this number: it is there, it was taken, or
it was swept away when the shelf was cleared. The end of the queue hides the shelf from consumers
and changes nothing on it.

The shelf says which answers are right, and what was accepted is at each time what was taken, what
was swept away and what is there.
-/

namespace Inference

-- A lock section of a queue: the answer, unless the caller has to wait, and what is swept away.
structure Visit (α : Type) where
  request : Request α
  answer : Option (Answer α)
  swept : List α

namespace Visit

variable {α : Type}

def accepted (v : Visit α) : List α :=
  match v.request, v.answer with
  | .push x, some (.accepted true) => [x]
  | _, _ => []

def taken (v : Visit α) : List α :=
  match v.request, v.answer with
  | .pop, some (.item (some x)) | .tryPop, some (.item (some x)) => [x]
  | _, _ => []

end Visit

namespace Queue

variable {α : Type}

def visit (q : Queue α) (r : Request α) : Visit α × Queue α :=
  match q.turn r with
  | .wait _ => (⟨r, none, []⟩, q)
  | .leave q' _ a =>
    match r with
    | .clear => (⟨r, some a, q.items⟩, q')
    | _ => (⟨r, some a, []⟩, q')

-- The lock sections of a run, whoever makes the requests.
def visits : Queue α → List (Request α) → List (Visit α) × Queue α
  | q, [] => ([], q)
  | q, r :: rs =>
    let (v, q) := q.visit r
    let (vs, q) := visits q rs
    (v :: vs, q)

end Queue

-- The number of an item is that of the items that were accepted before it.
structure Shelf (α : Type) where
  accepted : List α
  taken : List ℕ
  swept : List ℕ
  ended : Bool

namespace Shelf

variable {α : Type}

def empty : Shelf α := ⟨[], [], [], false⟩

def gone (s : Shelf α) : List ℕ := s.taken ++ s.swept

-- The numbers of the items that are there, the oldest first.
def present (s : Shelf α) : List ℕ := (List.range s.accepted.length).filter (· ∉ s.gone)

-- Whether an item may be the next one to leave.
def Next (s : Shelf α) (n : ℕ) (x : α) : Order α → Prop
  | .arrival => n ∈ s.present ∧ s.accepted[n]? = some x ∧ ∀ m ∈ s.present, n ≤ m
  | .priority le => n ∈ s.present ∧ s.accepted[n]? = some x ∧
      ∀ m ∈ s.present, ∀ y, s.accepted[m]? = some y → le y x

-- A bound leaves room for one item at least.
def Full (s : Shelf α) (bound : Option ℕ) : Prop := ∃ b, bound = some b ∧ max b 1 ≤ s.present.length

-- What a lock section may come to.
inductive Serves (o : Order α) (bound : Option ℕ) (s : Shelf α) : Visit α → Shelf α → Prop
  | accept (x) : bound = none ∨ s.ended = false ∧ ¬s.Full bound →
      Serves o bound s ⟨.push x, some (.accepted true), []⟩ { s with accepted := s.accepted ++ [x] }
  | refuse (x) : bound.isSome → s.ended → Serves o bound s ⟨.push x, some (.accepted false), []⟩ s
  | delay (x) : s.Full bound → s.ended = false → Serves o bound s ⟨.push x, none, []⟩ s
  | take {r n x} : r = .pop ∨ r = .tryPop → s.ended = false → s.Next n x o →
      Serves o bound s ⟨r, some (.item (some x)), []⟩ { s with taken := s.taken ++ [n] }
  | show {n x} : s.ended = false → s.Next n x o →
      Serves o bound s ⟨.front, some (.item (some x)), []⟩ s
  | withhold {r} : r = .pop ∨ r = .tryPop ∨ r = .front → s.ended →
      Serves o bound s ⟨r, some (.item none), []⟩ s
  | lack : s.ended = false → s.present = [] → Serves o bound s ⟨.tryPop, some (.item none), []⟩ s
  | await {r} : r = .pop ∨ r = .front → s.ended = false → s.present = [] →
      Serves o bound s ⟨r, none, []⟩ s
  | sweep {l} : s.present.map (s.accepted[·]?) = l.map some →
      Serves o bound s ⟨.clear, some .done, l⟩ { s with swept := s.swept ++ s.present }
  | close : Serves o bound s ⟨.close, some .done, []⟩ { s with ended := true }
  | reopen : Serves o bound s ⟨.reopen, some .done, []⟩ { s with ended := false }

inductive Runs (o : Order α) (bound : Option ℕ) : Shelf α → List (Visit α) → Shelf α → Prop
  | nil (s) : Runs o bound s [] s
  | cons {s t u v vs} : s.Serves o bound v t → Runs o bound t vs u → Runs o bound s (v :: vs) u

-- Each item is written down once.
structure Tidy (s : Shelf α) : Prop where
  once  : s.gone.Nodup
  known : ∀ n ∈ s.gone, n < s.accepted.length

variable {s t : Shelf α} {o : Order α} {bound : Option ℕ} {v : Visit α} {x : α} {n i : ℕ}

theorem mem_present : n ∈ s.present ↔ n < s.accepted.length ∧ n ∉ s.gone := by
  simp [present]

theorem nodup_present (s : Shelf α) : s.present.Nodup := List.nodup_range.filter _

theorem sorted_present (s : Shelf α) : s.present.Pairwise (· < ·) :=
  List.pairwise_lt_range.filter _

theorem gone_take (n : ℕ) :
    ({ s with taken := s.taken ++ [n] } : Shelf α).gone.Perm (n :: s.gone) := by
  simp only [gone, List.append_assoc, List.singleton_append]
  exact List.perm_middle

theorem gone_sweep :
    ({ s with swept := s.swept ++ s.present } : Shelf α).gone = s.gone ++ s.present := by
  simp [gone]

theorem present_accept (ht : s.Tidy) (x : α) :
    ({ s with accepted := s.accepted ++ [x] } : Shelf α).present =
      s.present ++ [s.accepted.length] := by
  have hn : s.accepted.length ∉ s.gone := fun h => Nat.lt_irrefl _ (ht.known _ h)
  change List.filter (· ∉ s.gone) _ = _
  simp [present, List.range_succ, hn]

theorem present_take (hn : s.present[i]? = some n) :
    ({ s with taken := s.taken ++ [n] } : Shelf α).present = s.present.eraseIdx i := by
  obtain ⟨hi, rfl⟩ := List.getElem?_eq_some_iff.mp hn
  rw [← s.nodup_present.erase_getElem i hi, s.nodup_present.erase_eq_filter]
  change List.filter _ _ = List.filter _ (List.filter _ _)
  rw [List.filter_filter]
  apply List.filter_congr
  intro m _
  simp [(gone_take _).mem_iff, not_or, bne, beq_eq_decide]

theorem present_sweep : ({ s with swept := s.swept ++ s.present } : Shelf α).present = [] := by
  apply List.filter_eq_nil_iff.mpr
  intro m hm
  have hm : m < s.accepted.length := List.mem_range.mp hm
  simp only [gone_sweep, List.mem_append, mem_present, decide_eq_true_eq, not_not]
  exact (Classical.em (m ∈ s.gone)).imp_right fun hg => ⟨hm, hg⟩

namespace Tidy

theorem perm (h : s.Tidy) : (s.taken ++ s.swept ++ s.present).Perm (.range s.accepted.length) := by
  have hd : (s.gone ++ s.present).Nodup :=
    h.once.append s.nodup_present fun n hg hp => (mem_present.mp hp).right hg
  apply (List.perm_ext_iff_of_nodup hd List.nodup_range).mpr
  intro n
  simp only [List.mem_append, mem_present, List.mem_range]
  constructor
  · exact fun hn => hn.elim (h.known n) And.left
  · intro hn
    by_cases hg : n ∈ s.gone
    · exact .inl hg
    · exact .inr ⟨hn, hg⟩

theorem take (h : s.Tidy) (hn : n ∈ s.present) :
    ({ s with taken := s.taken ++ [n] } : Shelf α).Tidy where
  once  := (gone_take n).nodup_iff.mpr <| h.once.cons (mem_present.mp hn).right
  known := by
    intro m hm
    rcases List.mem_cons.mp <| (gone_take n).mem_iff.mp hm with rfl | hm
    · exact (mem_present.mp hn).left
    · exact h.known m hm

theorem sweep (h : s.Tidy) : ({ s with swept := s.swept ++ s.present } : Shelf α).Tidy where
  once  := by
    rw [gone_sweep]
    exact h.once.append s.nodup_present fun n hg hp => (mem_present.mp hp).right hg
  known := by
    intro m hm
    rw [gone_sweep, List.mem_append, mem_present] at hm
    exact hm.elim (h.known m) And.left

theorem accept (h : s.Tidy) (x : α) :
    ({ s with accepted := s.accepted ++ [x] } : Shelf α).Tidy where
  once  := h.once
  known := by
    intro m hm
    have := h.known m hm
    simp only [List.length_append]
    omega

end Tidy

theorem Next.mem_present (h : s.Next n x o) : n ∈ s.present ∧ s.accepted[n]? = some x := by
  cases o <;> exact ⟨h.left, h.right.left⟩

theorem Serves.tidy (h : s.Serves o bound v t) (ht : s.Tidy) : t.Tidy := by
  cases h
  case accept x _      => exact ht.accept x
  case take hn         => exact ht.take hn.mem_present.left
  case sweep           => exact ht.sweep
  case close | reopen  => exact ⟨ht.once, ht.known⟩
  all_goals exact ht

-- Numbers keep their items.
theorem map_accepted {l : List ℕ} (xs : List α) (hl : ∀ n ∈ l, n < s.accepted.length) :
    l.map ((s.accepted ++ xs)[·]?) = l.map (s.accepted[·]?) :=
  List.map_congr_left fun n hn => List.getElem?_append_left (hl n hn)

theorem Serves.accepted (h : s.Serves o bound v t) : t.accepted = s.accepted ++ v.accepted := by
  cases h
  case take hr _ _ | withhold hr _ | await hr _ _ =>
    rcases hr with rfl | hr <;> simp_all [Visit.accepted]
  all_goals simp [Visit.accepted]

theorem Serves.taken (h : s.Serves o bound v t) (ht : s.Tidy) :
    t.taken.map (t.accepted[·]?) = s.taken.map (s.accepted[·]?) ++ v.taken.map some := by
  cases h
  case accept x _ =>
    simpa [Visit.taken] using map_accepted [x] fun n hn => ht.known n (List.mem_append_left _ hn)
  case take hr _ hn => rcases hr with rfl | rfl <;> simp [Visit.taken, hn.mem_present]
  case withhold hr _ | await hr _ _ => rcases hr with rfl | hr <;> simp_all [Visit.taken]
  all_goals simp [Visit.taken]

theorem Serves.swept (h : s.Serves o bound v t) (ht : s.Tidy) :
    t.swept.map (t.accepted[·]?) = s.swept.map (s.accepted[·]?) ++ v.swept.map some := by
  cases h
  case accept x _ =>
    simpa using map_accepted [x] fun n hn => ht.known n (List.mem_append_right _ hn)
  case sweep hl => simp [hl]
  all_goals simp

-- What was written down in a run is what the answers say.
structure Accounts (s : Shelf α) (vs : List (Visit α)) (t : Shelf α) : Prop where
  accepted : t.accepted = s.accepted ++ vs.flatMap Visit.accepted
  taken    : t.taken.map (t.accepted[·]?) =
    s.taken.map (s.accepted[·]?) ++ (vs.flatMap Visit.taken).map some
  swept    : t.swept.map (t.accepted[·]?) =
    s.swept.map (s.accepted[·]?) ++ (vs.flatMap Visit.swept).map some

theorem Runs.accounts {vs : List (Visit α)} (h : Runs o bound s vs t) (ht : s.Tidy) :
    s.Accounts vs t := by
  induction h
  case nil => constructor <;> simp
  case cons hv _ hi =>
    have hi := hi (hv.tidy ht)
    constructor
    case accepted => simp [hi.accepted, hv.accepted]
    case taken    => simp [hi.taken, hv.taken ht]
    case swept    => simp [hi.swept, hv.swept ht]

theorem tidy_empty : (empty : Shelf α).Tidy := ⟨.nil, by simp [gone, empty]⟩

end Shelf
end Inference
