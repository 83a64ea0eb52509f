import Inference.Gate.Basic
import Inference.Proofs.Machine
import Inference.Proofs.Queue.Cargo
import Inference.Proofs.Tally

/-!
The steps of a gate: a call begins, an input is made, a call takes its next atomic action, a call
gives a notification, or an instance replies. Each is listed with what it needs and what it does.
-/

namespace Inference

-- The tickets that a task hands out or gives back.
def Task.tickets : Task → List Ticket
  | compare _ t => [t]
  | ask _ c => c.cargo
  | _ => []

@[simp]
theorem Task.tickets_ask (lane : ℕ) (c : Caller Ticket) : (ask lane c).tickets = c.cargo := rfl

namespace Stage

variable {s : Stage}

-- The tickets that a call has, or is going to have put into a lane.
def tickets : Stage → List Ticket
  | popping _ c => c.cargo
  | holding _ t | waiting _ t | inside _ t => [t]
  | queued todo _ | working todo _ => todo.flatMap Task.tickets
  | _ => []

-- What is left to do for a call that has the lifecycle.
def agenda : Stage → List Task
  | working todo _ => todo
  | _ => []

@[simp]
theorem tickets_working (todo : List Task) (o : Outcome) :
    (working todo o).tickets = todo.flatMap Task.tickets := rfl

@[simp]
theorem tickets_queued (todo : List Task) (o : Outcome) :
    (queued todo o).tickets = todo.flatMap Task.tickets := rfl

@[simp]
theorem tickets_returned (o : Outcome) : (returned o).tickets = [] := rfl

@[simp]
theorem agenda_working (todo : List Task) (o : Outcome) : (working todo o).agenda = todo := rfl

@[simp]
theorem agenda_queued (todo : List Task) (o : Outcome) : (queued todo o).agenda = [] := rfl

@[simp]
theorem agenda_returned (o : Outcome) : (returned o).agenda = [] := rfl

def works (s : Stage) : ℕ := if s.isWorking then 1 else 0

theorem agenda_eq_nil (h : s.works = 0) : s.agenda = [] := by
  cases s <;> first | rfl | simp [works, isWorking] at h

theorem works_le (s : Stage) : s.works ≤ 1 := by
  rw [works]
  split <;> omega

@[simp]
theorem tickets_afterPop (x : Input) (c : Caller Ticket) : (afterPop x c).tickets = c.cargo := by
  cases c
  case returned a => cases a <;> first | rfl | (rename_i x; cases x <;> rfl)
  all_goals rfl

@[simp]
theorem works_afterPop (x : Input) (c : Caller Ticket) : (afterPop x c).works = 0 := by
  cases c
  case returned a => cases a <;> first | rfl | (rename_i x; cases x <;> rfl)
  all_goals rfl

-- A caller that has returned is left behind.
theorem afterAsk_cases (lane : ℕ) (todo : List Task) (o : Outcome) (c : Caller Ticket) :
    (∃ a, c = .returned a ∧ afterAsk lane todo o c = working todo o) ∨
    afterAsk lane todo o c = working (.ask lane c :: todo) o := by
  cases c
  case returned a => exact .inl ⟨a, rfl, rfl⟩
  all_goals exact .inr rfl

theorem mem_afterAsk {lane : ℕ} {todo : List Task} {o : Outcome} {c : Caller Ticket} {a : Task}
    (ha : a ≠ .ask lane c) : a ∈ (afterAsk lane todo o c).agenda ↔ a ∈ todo := by
  rcases afterAsk_cases lane todo o c with ⟨_, _, h⟩ | h <;> simp [h, ha]

theorem tickets_afterAsk {lane : ℕ} {todo : List Task} {o : Outcome} {c : Caller Ticket}
    (hc : c.cargo = []) : (afterAsk lane todo o c).tickets = todo.flatMap Task.tickets := by
  rcases afterAsk_cases lane todo o c with ⟨_, _, h⟩ | h <;> simp [h, hc]

end Stage

namespace Gate

variable {g g' : Gate} {s : Stage} {lane : ℕ} {c : Cond}

-- What is left to do for the call that has the lifecycle, if there is one.
def agenda (g : Gate) : List Task := g.calls.flatMap Stage.agenda

-- The next atomic action of a call: the gate and the call after it.
inductive Moves (g : Gate) : Stage → Gate → Stage → Prop
  | accept (x) : Moves g (.arriving x) g (g.accept x)
  | pop (x) {c q q' c'} : g.lanes[g.laneOf x.backendIndex]? = some q →
      c.lock? q = some (q', c') →
      Moves g (.popping x c) (g.setLane (g.laneOf x.backendIndex) q') (.afterPop x c')
  | keep (x t) : g.isOpen → Moves g (.holding x t) g (.waiting x t)
  | refuse (x t) : g.isOpen = false →
      Moves g (.holding x t) g (g.giveBack x t (.refused .stopped))
  | enter (x t) : g.calls.any (·.uses t.handle) = false → Moves g (.waiting x t) g (.inside x t)
  | begin (todo o) : g.calls.any (·.isWorking) = false →
      Moves g (.queued todo o) g (.working todo o)
  | leave (o) : Moves g (.working [] o) g (.returned o)
  | skip (todo o) : g.isOpen → Moves g (.working (.check :: todo) o) g (.working todo o)
  | plan (todo o) : g.isOpen = false →
      Moves g (.working (.check :: todo) o) g (.working (g.opening ++ todo) o)
  | allow (lane t todo o) : t.generation = g.generation →
      Moves g (.working (.compare lane t :: todo) o) g
        (.working (.ask lane (.entering (.push t)) :: todo) o)
  | drop (lane t todo o) : t.generation ≠ g.generation →
      Moves g (.working (.compare lane t :: todo) o) g (.working todo o)
  | ask (lane todo o) {c q q' c'} : g.lanes[lane]? = some q → c.lock? q = some (q', c') →
      Moves g (.working (.ask lane c :: todo) o) (g.setLane lane q') (.afterAsk lane todo o c')
  | assign (h index todo o) : Moves g (.working (.assign h index :: todo) o)
      { g with indices := g.indices.set h index } (.working todo o)
  | open (todo o) : Moves g (.working (.open :: todo) o) { g with isOpen := true } (.working todo o)
  | shut (todo o) : Moves g (.working (.shut :: todo) o)
      { g with isOpen := false } (.working todo o)
  | advance (todo o) : Moves g (.working (.advance :: todo) o)
      { g with generation := g.generation + 1 } (.working todo o)

-- A call after it has given a notification.
inductive Tells : Stage → Stage → Prop
  | pop (x w owed a) : Tells (.popping x (.notifying (w :: owed) a)) (.afterPop x (.owing owed a))
  | ask (lane w owed a todo o) : Tells (.working (.ask lane (.notifying (w :: owed) a) :: todo) o)
      (.afterAsk lane todo o (.owing owed a))

inductive Step (g : Gate) : Action → Gate → Prop
  | process (x) : Step g (.process x) (g.addCall (.arriving x))
  | open : Step g .open (g.addCall (.queued [.check] .done))
  | shut : Step g .shut (g.addCall (.queued g.shutting .done))
  | create (cursor made) : Step g .create { g with cursor, made }
  | move {i s g' s'} : g.calls[i]? = some s → g.Moves s g' s' → Step g (.step i) (g'.setCall i s')
  | notify {i target s s' lane c l} : Roused (g.wakeStage lane c) g.calls l → l[i]? = some s →
      Tells s s' → Step g (.notify i target) (setCall { g with calls := l } i s')
  | finish {i x t} (r) : g.calls[i]? = some (.inside x t) →
      Step g (.finish i r) (g.setCall i (g.giveBack x t (.replied r)))

theorem moves_stepTask {i : ℕ} {todo : List Task} {o : Outcome} {t : Task}
    (h : g.stepTask i todo o t = some g') :
    ∃ g₁ s', g.Moves (.working (t :: todo) o) g₁ s' ∧ g' = g₁.setCall i s' := by
  cases t
  case check =>
    simp only [stepTask, Option.some.injEq] at h
    cases ho : g.isOpen
    case false => exact ⟨_, _, .plan todo o ho, by simp [← h, ho]⟩
    case true  => exact ⟨_, _, .skip todo o ho, by simp [← h, ho]⟩
  case compare lane t =>
    simp only [stepTask, Option.some.injEq] at h
    by_cases ht : t.generation = g.generation
    case pos => exact ⟨_, _, .allow lane t todo o ht, by simp [← h, ht]⟩
    case neg => exact ⟨_, _, .drop lane t todo o ht, by simp [← h, ht]⟩
  case ask lane c =>
    simp only [stepTask, Option.bind_eq_bind, Option.bind_eq_some_iff, Option.pure_def,
      Option.some.injEq] at h
    obtain ⟨q, hq, ⟨q', c'⟩, hl, rfl⟩ := h
    exact ⟨_, _, .ask lane todo o hq hl, rfl⟩
  case assign h' index => exact ⟨_, _, .assign h' index todo o, (Option.some.inj h).symm⟩
  case «open»          => exact ⟨_, _, .open todo o, (Option.some.inj h).symm⟩
  case shut            => exact ⟨_, _, .shut todo o, (Option.some.inj h).symm⟩
  case advance         => exact ⟨_, _, .advance todo o, (Option.some.inj h).symm⟩

theorem moves_step {i : ℕ} (h : g.step i = some g') :
    ∃ s g₁ s', g.calls[i]? = some s ∧ g.Moves s g₁ s' ∧ g' = g₁.setCall i s' := by
  simp only [step, Option.bind_eq_bind, Option.bind_eq_some_iff] at h
  obtain ⟨s, hs, h⟩ := h
  refine ⟨s, ?_⟩
  cases s
  case arriving x => exact ⟨_, _, hs, .accept x, (Option.some.inj h).symm⟩
  case popping x c =>
    simp only [Option.bind_eq_some_iff, Option.pure_def, Option.some.injEq] at h
    obtain ⟨q, hq, ⟨q', c'⟩, hl, rfl⟩ := h
    exact ⟨_, _, hs, .pop x hq hl, rfl⟩
  case holding x t =>
    simp only [Option.pure_def, Option.some.injEq] at h
    split at h
    case isTrue ho  => exact ⟨_, _, hs, .keep x t ho, h.symm⟩
    case isFalse ho => exact ⟨_, _, hs, .refuse x t (by simpa using ho), h.symm⟩
  case waiting x t =>
    simp only [Option.pure_def, Option.ite_none_left_eq_some, Option.some.injEq] at h
    exact ⟨_, _, hs, .enter x t (by simpa using h.left), h.right.symm⟩
  case queued todo o =>
    simp only [Option.pure_def, Option.ite_none_left_eq_some, Option.some.injEq] at h
    exact ⟨_, _, hs, .begin todo o (by simpa using h.left), h.right.symm⟩
  case working todo o =>
    cases todo
    case nil => exact ⟨_, _, hs, .leave o, (Option.some.inj h).symm⟩
    case cons t todo =>
      have ⟨g₁, s', hm, hg⟩ := moves_stepTask h
      exact ⟨g₁, s', hs, hm, hg⟩
  all_goals simp at h

theorem roused_wake {w : Wake} {target : Option ℕ} (h : g.wake lane w target = some g') :
    ∃ c l, Roused (g.wakeStage lane c) g.calls l ∧ g' = { g with calls := l } := by
  cases w <;> cases target <;> simp only [wake, Option.some.injEq, reduceCtorEq] at h
  case all.none c => exact ⟨c, _, .map _, h.symm⟩
  case one.none c =>
    split at h <;> simp only [Option.some.injEq, reduceCtorEq] at h
    exact ⟨c, _, .refl _, h.symm⟩
  case one.some c j =>
    split at h <;> simp only [Option.some.injEq, reduceCtorEq] at h
    exact ⟨c, _, .modify _ _, h.symm⟩

-- A call that gives notifications is not one that waits for them.
theorem getElem?_of_tells {i : ℕ} {l : List Stage} {s' : Stage}
    (h : Roused (g.wakeStage lane c) g.calls l) (hi : g.calls[i]? = some s) (hs : Tells s s') :
    l[i]? = some s := by
  have ⟨_, hl, hr⟩ := h.getElem? hi
  rcases hr with rfl | rfl
  · exact hl
  · cases hs
    case pop =>
      rw [hl, wakeStage]
      split <;> rfl
    case ask => exact hl

-- What a call does when it gives a notification.
theorem notify_cases {i : ℕ} {target : Option ℕ} (h : g.notify i target = some g') :
    (∃ x w owed a, g.calls[i]? = some (.popping x (.notifying (w :: owed) a)) ∧
      ∃ g₁, g.wake (g.laneOf x.backendIndex) w target = some g₁ ∧
        g' = g₁.setCall i (.afterPop x (.owing owed a))) ∨
    ∃ lane w owed a todo o,
      g.calls[i]? = some (.working (.ask lane (.notifying (w :: owed) a) :: todo) o) ∧
      ∃ g₁, g.wake lane w target = some g₁ ∧
        g' = g₁.setCall i (.afterAsk lane todo o (.owing owed a)) := by
  simp only [notify, Option.bind_eq_bind, Option.bind_eq_some_iff] at h
  obtain ⟨s, hs, h⟩ := h
  split at h
  case h_1 x c =>
    simp only [Option.bind_eq_some_iff, Option.pure_def, Option.some.injEq] at h
    obtain ⟨⟨w, c'⟩, hn, g₁, hw, rfl⟩ := h
    obtain ⟨owed, a, rfl, rfl⟩ := Caller.notify?_eq hn
    exact .inl ⟨x, w, owed, a, hs, g₁, hw, rfl⟩
  case h_2 lane c todo o =>
    simp only [Option.bind_eq_some_iff, Option.pure_def, Option.some.injEq] at h
    obtain ⟨⟨w, c'⟩, hn, g₁, hw, rfl⟩ := h
    obtain ⟨owed, a, rfl, rfl⟩ := Caller.notify?_eq hn
    exact .inr ⟨lane, w, owed, a, todo, o, hs, g₁, hw, rfl⟩
  case h_3 => simp at h

theorem step_of_act {a : Action} (h : g.act a = some g') : g.Step a g' := by
  cases a
  case process x => exact Option.some.inj h ▸ .process x
  case «open»    => exact Option.some.inj h ▸ .open
  case shut      => exact Option.some.inj h ▸ .shut
  case create =>
    simp only [act, create?] at h
    split at h <;>
      simp only [Option.map_none, Option.map_some, Option.some.injEq, reduceCtorEq] at h
    exact h ▸ .create _ _
  case step i =>
    obtain ⟨_, _, _, hs, hm, rfl⟩ := moves_step h
    exact .move hs hm
  case notify i target =>
    rcases notify_cases h with
      ⟨x, w, owed, a, hi, _, hw, rfl⟩ | ⟨lane, w, owed, a, todo, o, hi, _, hw, rfl⟩ <;>
      obtain ⟨_, _, hr, rfl⟩ := roused_wake hw
    case inl =>
      have ht := Tells.pop x w owed a
      exact .notify hr (getElem?_of_tells hr hi ht) ht
    case inr =>
      have ht := Tells.ask lane w owed a todo o
      exact .notify hr (getElem?_of_tells hr hi ht) ht
  case finish i r =>
    simp only [act, finish, Option.bind_eq_bind, Option.bind_eq_some_iff] at h
    obtain ⟨s, hs, h⟩ := h
    cases s <;> simp only [Option.pure_def, Option.some.injEq, reduceCtorEq] at h
    exact h ▸ .finish r hs

end Gate
end Inference
