import Inference.Proofs.Gate.Closing
import Inference.Proofs.Gate.Instances

/-!
What a shutting does to the calls that have not got to their instance yet. A call that waits in its
lane, or has a ticket and has not made its second test, is told that the gate has stopped, unless it
makes this test while the gate is open: before the shutting call has shut it, or after another
opening. Such a call is let in. And it waits in its lane on and on if it goes on waiting only after
the lane has been opened again. A call that has been let in is never stopped, even if it still waits
for another call to be done with the instance.
-/

namespace Inference

namespace Stage

-- Before the second test.
inductive Pending : Stage → Prop
  | popping (x c) : Pending (popping x c)
  | holding (x t) : Pending (holding x t)

-- Pending, or told that the gate has stopped.
inductive Barred : Stage → Prop
  | pending {s} : s.Pending → Barred s
  | queued (todo) : Barred (queued todo (.refused .stopped))
  | working (todo) : Barred (working todo (.refused .stopped))
  | returned : Barred (returned (.refused .stopped))

-- Uses an instance, or is going to, or has done so.
inductive Admitted : Stage → Prop
  | waiting (x t) : Admitted (waiting x t)
  | inside (x t) : Admitted (inside x t)
  | queued (todo r) : Admitted (queued todo (.replied r))
  | working (todo r) : Admitted (working todo (.replied r))
  | returned (r) : Admitted (returned (.replied r))

theorem barred_afterPop (x : Input) (c : Caller Ticket) : (afterPop x c).Barred := by
  cases c
  case returned a =>
    cases a
    case item y =>
      cases y
      case none   => exact .returned
      case some t => exact .pending (.holding x t)
    all_goals exact .returned
  all_goals exact .pending (.popping x _)

theorem barred_afterAsk (lane : ℕ) (todo : List Task) (c : Caller Ticket) :
    (afterAsk lane todo (.refused .stopped) c).Barred := by
  rcases afterAsk_cases lane todo (.refused .stopped) c with ⟨_, _, h⟩ | h <;> exact h ▸ .working _

theorem admitted_afterAsk (lane : ℕ) (todo : List Task) (r : Reply) (c : Caller Ticket) :
    (afterAsk lane todo (.replied r) c).Admitted := by
  rcases afterAsk_cases lane todo (.replied r) c with ⟨_, _, h⟩ | h <;> exact h ▸ .working _ r

end Stage

namespace Gate

variable {g g' : Gate} {s s' : Stage} {i j : ℕ} {a : Action}

-- What becomes of a call when the gate takes a step.
inductive Fares (g : Gate) (a : Action) (i : ℕ) (s : Stage) : Stage → Prop
  | stays : Fares g a i s s
  | woken (lane c) : Fares g a i s (g.wakeStage lane c s)
  | moves {g₁ r} : a = .step i → g.Moves s g₁ r → Fares g a i s r
  | tells {r} : Tells s r → Fares g a i s r
  | replied {x t} (r) : s = .inside x t → Fares g a i s (g.giveBack x t (.replied r))

theorem wakeStage_of_tells {lane : ℕ} {c : Cond} (h : Tells (g.wakeStage lane c s) s') :
    g.wakeStage lane c s = s := by
  cases s
  case popping x k =>
    cases k
    case parked r d =>
      rw [wakeStage] at h
      split at h
      · simp only [Caller.wake] at h
        split at h <;> cases h
      · cases h
    all_goals
      rw [wakeStage]
      split <;> rfl
  all_goals rfl

theorem Step.fares (h : g.Step a g') (hi : g.calls[i]? = some s) :
    ∃ s', g'.calls[i]? = some s' ∧ g.Fares a i s s' := by
  have hset (g₁ : Gate) {s' r : Stage} {j : ℕ} (h : g₁.calls[i]? = some r) (hij : j ≠ i) :
      (g₁.setCall j s').calls[i]? = some r := by
    rwa [setCall, List.getElem?_set_ne hij]
  have hself (g₁ : Gate) {s' r : Stage} (h : g₁.calls[i]? = some r) :
      (g₁.setCall i s').calls[i]? = some s' :=
    List.getElem?_set_self (List.getElem?_eq_some_iff.mp h).choose
  have hadd (r : Stage) : (g.addCall r).calls[i]? = some s := by
    rwa [addCall, List.getElem?_append_left (List.getElem?_eq_some_iff.mp hi).choose]
  cases h
  case process => exact ⟨s, hadd _, .stays⟩
  case «open»  => exact ⟨s, hadd _, .stays⟩
  case shut    => exact ⟨s, hadd _, .stays⟩
  case create  => exact ⟨s, hi, .stays⟩
  case move j r g₁ s' hj hm =>
    by_cases hij : j = i
    case pos =>
      subst hij
      cases hj.symm.trans hi
      exact ⟨s', hself g₁ (hm.calls ▸ hi), .moves rfl hm⟩
    case neg => exact ⟨s, hset g₁ (hm.calls ▸ hi) hij, .stays⟩
  case notify j _ r s' lane c l hr hj ht =>
    obtain ⟨r', hl, hr'⟩ := hr.getElem? hi
    by_cases hij : j = i
    case pos =>
      subst hij
      cases hj.symm.trans hl
      refine ⟨s', hself { g with calls := l } hl, .tells ?_⟩
      rcases hr' with rfl | rfl
      · exact ht
      · exact wakeStage_of_tells ht ▸ ht
    case neg =>
      refine ⟨r', hset { g with calls := l } hl hij, ?_⟩
      rcases hr' with rfl | rfl
      · exact .stays
      · exact .woken lane c
  case finish j x t r hj =>
    by_cases hij : j = i
    case pos =>
      subst hij
      cases hj.symm.trans hi
      exact ⟨_, hself g hi, .replied r rfl⟩
    case neg => exact ⟨s, hset g hi hij, .stays⟩

-- A call makes its second test while the gate is open.
def Admits (g : Gate) (i : ℕ) (a : Action) : Prop :=
  a = .step i ∧ g.isOpen ∧ ∃ x t, g.calls[i]? = some (.holding x t)

theorem Fares.barred (h : g.Fares a i s s') (hi : g.calls[i]? = some s) (hn : ¬g.Admits i a)
    (hs : s.Barred) : s'.Barred := by
  cases h
  case stays => exact hs
  case woken lane c =>
    cases hs
    case pending hs =>
      cases hs
      case popping x k => exact .pending (.popping x _)
      case holding x t => exact .pending (.holding x t)
    case queued todo  => exact .queued todo
    case working todo => exact .working todo
    case returned     => exact .returned
  case moves ha hm =>
    cases hs
    case pending hs =>
      cases hs
      case popping x k =>
        cases hm
        case pop => exact Stage.barred_afterPop ..
      case holding x t =>
        cases hm
        case keep ho => exact (hn ⟨ha, ho, x, t, hi⟩).elim
        case refuse  => exact .queued _
    case queued todo =>
      cases hm
      case begin => exact .working todo
    case working todo =>
      cases hm
      case leave => exact .returned
      case ask   => exact Stage.barred_afterAsk ..
      all_goals exact .working _
    case returned => cases hm
  case tells ht =>
    cases ht
    case pop => exact Stage.barred_afterPop ..
    case ask =>
      cases hs
      case pending hs => cases hs
      case working    => exact Stage.barred_afterAsk ..
  case replied hx =>
    subst hx
    cases hs
    case pending hs => cases hs

theorem Fares.admitted (h : g.Fares a i s s') (hs : s.Admitted) : s'.Admitted := by
  cases h
  case stays => exact hs
  case woken lane c =>
    cases hs
    case waiting x t      => exact .waiting x t
    case inside x t       => exact .inside x t
    case queued todo r    => exact .queued todo r
    case working todo r   => exact .working todo r
    case returned r       => exact .returned r
  case moves ha hm =>
    cases hs
    case waiting x t =>
      cases hm
      case enter => exact .inside x t
    case inside => cases hm
    case queued todo r =>
      cases hm
      case begin => exact .working todo r
    case working todo r =>
      cases hm
      case leave => exact .returned r
      case ask   => exact Stage.admitted_afterAsk ..
      all_goals exact .working _ r
    case returned => cases hm
  case tells ht =>
    cases ht
    case pop => cases hs
    case ask =>
      cases hs
      case working => exact Stage.admitted_afterAsk ..
  case replied r _ => exact .queued _ r

theorem admitted_of_admits (h : g.act a = some g') (ha : g.Admits i a) :
    ∃ s, g'.calls[i]? = some s ∧ s.Admitted := by
  obtain ⟨rfl, ho, x, t, hi⟩ := ha
  refine ⟨.waiting x t, ?_, .waiting x t⟩
  simp only [act, step, hi, ho, Option.bind_eq_bind, Option.bind_some, Option.pure_def,
    Option.some.injEq, if_true] at h
  rw [← h, setCall, List.getElem?_set_self (List.getElem?_eq_some_iff.mp hi).choose]

-- Runs in which a call is never let in.
theorem barred_of_reachesBy {h : Gate} (hr : machine.ReachesBy (fun g a => ¬g.Admits i a) g h)
    (hi : g.calls[i]? = some s) (hs : s.Barred) : ∃ s', h.calls[i]? = some s' ∧ s'.Barred :=
  hr.preserves (I := fun g => ∃ s, g.calls[i]? = some s ∧ s.Barred) ⟨s, hi, hs⟩
    fun ⟨_, hi, hs⟩ hn ha =>
      have ⟨s', hi', hf⟩ := (step_of_act ha).fares hi
      ⟨s', hi', hf.barred hi hn hs⟩

theorem admitted_of_reaches {h : Gate} (hr : machine.Reaches g h) (hi : g.calls[i]? = some s)
    (hs : s.Admitted) : ∃ s', h.calls[i]? = some s' ∧ s'.Admitted :=
  hr.preserves (I := fun g => ∃ s, g.calls[i]? = some s ∧ s.Admitted) ⟨s, hi, hs⟩
    fun ⟨_, hi, hs⟩ ha =>
      have ⟨s', hi', hf⟩ := (step_of_act ha).fares hi
      ⟨s', hi', hf.admitted hs⟩

-- A call is let in at some time, or it is not.
theorem reaches_cases {h : Gate} (i : ℕ) (hr : machine.Reaches g h) :
    machine.ReachesBy (fun g a => ¬g.Admits i a) g h ∨
      ∃ s', h.calls[i]? = some s' ∧ s'.Admitted := by
  induction hr
  case refl => exact .inl .refl
  case step h a _ _ ha hr =>
    rcases hr with hr | ⟨s', hi', hs'⟩
    · by_cases hn : h.Admits i a
      · exact .inr <| admitted_of_admits ha hn
      · exact .inl <| .step hr hn ha
    · have ⟨r, hi', hf⟩ := (step_of_act ha).fares hi'
      exact .inr ⟨r, hi', hf.admitted hs'⟩

-- What holds in every reachable state of the calls and the lanes.
structure Regular (g : Gate) : Prop where
  sound   : g.Sound
  live    : g.Live
  wakeful : g.Wakeful
  intends : ∀ s ∈ g.calls, s.Intends

theorem Regular.act (hg : g.Regular) (h : g.act a = some g') : g'.Regular :=
  have hs := step_of_act h
  ⟨hs.sound hg.sound, hs.live hg.sound hg.live, act_wakeful h hg.sound hg.wakeful,
    hs.intends hg.intends⟩

theorem regular_loaded (g : Gate) (size : ℕ) : (g.emptied.loaded size).Regular where
  sound   := sound_loaded g size
  live    := live_loaded g size
  wakeful := fun _ _ _ _ _ hs => absurd hs List.not_mem_nil
  intends := fun _ hs => absurd hs List.not_mem_nil

theorem AtRest.barred (hr : g.AtRest) (hg : g.Regular) (hi : g.calls[i]? = some s)
    (hs : s.Barred) : s = .returned (.refused .stopped) ∨
      ∃ x q, s = .popping x (.parked .pop .notEmpty) ∧
        g.lanes[g.laneOf x.backendIndex]? = some q ∧ q.ended = false := by
  cases hr.rests hg.live hi
  case waiting => cases hs with | pending hs => cases hs
  case inside  => cases hs with | pending hs => cases hs
  case returned =>
    cases hs
    case pending hs => cases hs
    case returned   => exact .inl rfl
  case parked x =>
    have hm := List.mem_of_getElem? hi
    have hq := List.getElem?_eq_getElem (hg.live.calls _ hm).left
    refine .inr ⟨x, _, rfl, hq, ?_⟩
    rw [← Bool.not_eq_true]
    intro he
    have ⟨_, _, ht⟩ := hg.wakeful _ _ hq he _ hm (by simp [isParkedAt, Caller.isParkedAt])
    rw [agenda_eq_nil (hr.not_working hg.live)] at ht
    exact List.not_mem_nil ht

theorem Halted.ended_of_atRest {l : ℕ} {q : Queue Ticket} (hg : g.Halted) (hr : g.AtRest)
    (hl : g.Live) (hq : g.lanes[l]? = some q) : q.ended := by
  refine (hg.ended l q hq).resolve_right ?_
  rw [agenda_eq_nil (hr.not_working hl)]
  exact List.not_mem_nil

theorem halted_of_reachesBy {p : Gate → Action → Prop} {h : Gate} (hr : machine.ReachesBy p g h)
    (hp : ∀ {g a}, p g a → ¬g.Begins a) (hg : g.Regular) (hh : g.Halted) :
    h.Regular ∧ h.Halted :=
  hr.preserves (I := fun g => g.Regular ∧ g.Halted) ⟨hg, hh⟩ fun ⟨hg, hh⟩ hb ha =>
    ⟨hg.act ha, (step_of_act ha).halted hg.sound hg.intends (hp hb) hh⟩

-- From the moment at which a shutting gets the lifecycle, a pending call never uses an instance if
-- and only if it is not let in; it is let in before the gate is shut or after an opening has begun.
-- If it is not let in, it has returned when nobody can go on, or it waits in a lane that has been
-- opened again; without an opening it has returned. A call that was let in before is not stopped.
theorem pending_call_stopped (g₀ : Gate) (size : ℕ)
    (hr : machine.Reaches (g₀.emptied.loaded size) g)
    (hj : g.calls[j]? = some (.working g.shutting .done))
    (hi : g.calls[i]? = some s) (hs : s.Pending) :
    (∀ h, machine.Reaches g h → ∃ s, h.calls[i]? = some s ∧
      (machine.ReachesBy (fun g a => ¬g.Admits i a) g h → s.Barred) ∧
      (¬machine.ReachesBy (fun g a => ¬g.Admits i a) g h → s.Admitted)) ∧
    (∀ h h' a, machine.ReachesBy (fun g a => ¬g.Begins a) g h → h.isOpen = false →
      machine.ReachesBy (fun g a => ¬g.Begins a) h h' → ¬h'.Admits i a) ∧
    (∀ h, machine.ReachesBy (fun g a => ¬g.Admits i a) g h → h.AtRest →
      h.calls[i]? = some (.returned (.refused .stopped)) ∨
        ∃ x q, h.calls[i]? = some (.popping x (.parked .pop .notEmpty)) ∧
          h.lanes[h.laneOf x.backendIndex]? = some q ∧ q.ended = false) ∧
    (∀ h, machine.ReachesBy (fun g a => ¬g.Admits i a ∧ ¬g.Begins a) g h → h.AtRest →
      h.calls[i]? = some (.returned (.refused .stopped))) ∧
    (∀ (k : ℕ) (s : Stage), g.calls[k]? = some s → s.Admitted → ∀ h, machine.Reaches g h →
      ∃ s : Stage, h.calls[k]? = some s ∧ s.Admitted) := by
  have hg : g.Regular := hr.preserves (regular_loaded g₀ size) .act
  have hh : g.Halted := halted_shutting (agenda_eq hj hg.sound.alone)
  have hb : s.Barred := .pending hs
  have hrest {h : Gate} (hr : machine.ReachesBy (fun g a => ¬g.Admits i a) g h) (ha : h.AtRest) :
      h.calls[i]? = some (.returned (.refused .stopped)) ∨
        ∃ x q, h.calls[i]? = some (.popping x (.parked .pop .notEmpty)) ∧
          h.lanes[h.laneOf x.backendIndex]? = some q ∧ q.ended = false := by
    have ⟨s', hi', hb'⟩ := barred_of_reachesBy hr hi hb
    have hg' : h.Regular := hr.reaches.preserves hg .act
    rcases ha.barred hg' hi' hb' with rfl | ⟨x, q, rfl, hq⟩
    · exact .inl hi'
    · exact .inr ⟨x, q, hi', hq⟩
  refine ⟨fun h hr => ?_, fun h h' a hr ho hr' => ?_, fun h => hrest, fun h hr ha => ?_,
    fun k r hk hs h hr => admitted_of_reaches hr hk hs⟩
  case refine_1 =>
    by_cases hn : machine.ReachesBy (fun g a => ¬g.Admits i a) g h
    case pos =>
      have ⟨s', hi', hb'⟩ := barred_of_reachesBy hn hi hb
      exact ⟨s', hi', fun _ => hb', fun h => (h hn).elim⟩
    case neg =>
      have ⟨s', hi', ha'⟩ := (reaches_cases i hr).resolve_left hn
      exact ⟨s', hi', fun h => (hn h).elim, fun _ => ha'⟩
  case refine_2 =>
    have ⟨hg', hh'⟩ := halted_of_reachesBy hr id hg hh
    have ⟨_, _, ho⟩ := hr'.preserves (I := fun g => g.Regular ∧ g.Halted ∧ g.isOpen = false)
      ⟨hg', hh', ho⟩ fun ⟨hg, hh, ho⟩ hb ha =>
        have hs := step_of_act ha
        ⟨hg.act ha, hs.halted hg.sound hg.intends hb hh, hs.shut_of_halted hg.sound hh ho⟩
    rintro ⟨_, ho', _⟩
    simp [ho] at ho'
  case refine_3 =>
    have ⟨hg', hh'⟩ := halted_of_reachesBy hr And.right hg hh
    refine (hrest (hr.imp And.left) ha).resolve_right ?_
    rintro ⟨x, q, _, hq, he⟩
    simp [hh'.ended_of_atRest ha hg'.live hq] at he

-- A call is parked while another one uses the only instance, and a shutting has the lifecycle.
def contended : Gate :=
  let start := (unloaded false).emptied.loaded 1
  let x := Input.blank 0
  { start with
    isOpen := true
    calls := [.returned .done, .inside x ⟨0, 1⟩, .popping x (.parked .pop .notEmpty),
      .working start.shutting .done] }

theorem reaches_contended : machine.Reaches ((unloaded false).emptied.loaded 1) contended :=
  .of_run [.open, .step 0, .step 0, .step 0, .notify 0 none, .step 0, .step 0, .step 0,
    .notify 0 none, .step 0, .step 0, .process (.blank 0), .step 1, .step 1, .notify 1 none,
    .step 1, .step 1, .process (.blank 0), .step 2, .step 2, .shut, .step 3] (by cbv)

-- The parked call comes back from the shutting.
theorem parked_call_stopped :
    let start := (unloaded false).emptied.loaded 1
    let x := Input.blank 0
    let g : Gate := { start with
      isOpen := true
      calls := [.returned .done, .inside x ⟨0, 1⟩, .popping x (.parked .pop .notEmpty),
        .working start.shutting .done] }
    let h : Gate := { start with
      lanes := [⟨.arrival, none, [], true⟩]
      generation := 2
      calls := [.returned .done, .inside x ⟨0, 1⟩, .returned (.refused .stopped),
        .returned .done] }
    machine.Reaches start g ∧ machine.ReachesBy (fun g a => ¬g.Admits 2 a) g h ∧ h.AtRest ∧
      h.calls[2]? = some (.returned (.refused .stopped)) := by
  intro start x g h
  let woken (todo : List Task) : Gate := { h with
    calls := [.returned .done, .inside x ⟨0, 1⟩, .popping x (.woken .pop), .working todo .done] }
  let clear := [Task.ask 0 (.entering .clear)]
  have hg : machine.Reaches start g := reaches_contended
  have hn {g : Gate} {a : Action} (ha : a ≠ .step 2) : ¬g.Admits 2 a := fun h => ha h.left
  have hw : machine.ReachesBy (fun g a => ¬g.Admits 2 a) g (woken clear) :=
    (Machine.ReachesBy.of_run (p := (· ≠ .step 2))
      [.step 3, .step 3, .step 3, .notify 3 none, .notify 3 none] (by cbv) (by simp)).imp hn
  have hs : machine.ReachesBy (fun g a => ¬g.Admits 2 a) (woken clear) (woken []) :=
    (Machine.ReachesBy.of_run (p := (· ≠ .step 2))
      [.step 3, .notify 3 none] (by cbv) (by simp)).imp hn
  have hh : machine.ReachesBy (fun g a => ¬g.Admits 2 a) g h :=
    .step (.step (hw.trans hs) (a := .step 2) (fun h => Bool.false_ne_true h.right.left) rfl)
      (a := .step 3) (hn (by simp)) rfl
  have hr : h.AtRest := by
    rintro (_ | _ | _ | _ | i) <;> exact ⟨rfl, fun _ => rfl⟩
  have hc := pending_call_stopped (i := 2) (j := 3) (unloaded false) 1 hg rfl rfl (.popping _ _)
  refine ⟨hg, hh, hr, (hc.right.right.left h hh hr).resolve_right ?_⟩
  rintro ⟨_, _, hp, _⟩
  cases hp

-- A parked call gets to its instance when the gate is opened again at once. A call with a ticket
-- gets to its instance although the shutting call has the lifecycle. And so does a call that waits
-- for the instance to be done with a call from before an earlier shutting, though the gate stays
-- shut.
theorem pending_calls_use_instance :
    let start := (unloaded false).emptied.loaded 1
    let x := Input.blank 0
    let r := Reply.output ⟨[], none⟩
    let g : Gate := { start with
      isOpen := true
      calls := [.returned .done, .inside x ⟨0, 1⟩, .popping x (.parked .pop .notEmpty),
        .working start.shutting .done] }
    let h : Gate := { start with
      isOpen := true
      generation := 2
      calls := [.returned .done, .returned (.replied r), .inside x ⟨0, 2⟩, .returned .done,
        .returned .done] }
    let g' : Gate := { start with
      isOpen := true
      calls := [.returned .done, .holding x ⟨0, 1⟩, .working start.shutting .done] }
    let h' : Gate := { start with
      isOpen := true
      calls := [.returned .done, .inside x ⟨0, 1⟩, .working start.shutting .done] }
    let g'' : Gate := { start with
      isOpen := true
      generation := 2
      calls := [.returned .done, .inside x ⟨0, 1⟩, .returned .done, .returned .done,
        .waiting x ⟨0, 2⟩, .working start.shutting .done] }
    let h'' : Gate := { start with
      lanes := [⟨.arrival, none, [], true⟩]
      generation := 3
      calls := [.returned .done, .queued [.compare 0 ⟨0, 1⟩] (.replied r), .returned .done,
        .returned .done, .inside x ⟨0, 2⟩, .returned .done] }
    machine.Reaches start g ∧ machine.Reaches g h ∧
      machine.Reaches start g' ∧ machine.Reaches g' h' ∧
      machine.Reaches start g'' ∧ machine.Reaches g'' h'' := by
  intro start x r g h g' h' g'' h''
  have hg : machine.Reaches start g := reaches_contended
  have hh : machine.Reaches g h :=
    .of_run [.step 3, .step 3, .step 3, .notify 3 none, .notify 3 none, .step 3, .notify 3 none,
      .step 3, .open, .step 4, .step 4, .step 4, .notify 4 none, .step 4, .step 4, .step 4,
      .notify 4 none, .step 4, .step 4, .step 2, .notify 2 none, .step 2, .finish 1 r,
      .step 1, .step 1, .step 1, .step 2] (by cbv)
  have hg' : machine.Reaches start g' :=
    .of_run [.open, .step 0, .step 0, .step 0, .notify 0 none, .step 0, .step 0, .step 0,
      .notify 0 none, .step 0, .step 0, .process x, .step 1, .step 1, .notify 1 none, .shut,
      .step 2] (by cbv)
  have hh' : machine.Reaches g' h' := .of_run [.step 1, .step 1] (by cbv)
  have hg'' : machine.Reaches start g'' :=
    .of_run [.open, .step 0, .step 0, .step 0, .notify 0 none, .step 0, .step 0, .step 0,
      .notify 0 none, .step 0, .step 0, .process x, .step 1, .step 1, .notify 1 none, .step 1,
      .step 1, .shut, .step 2, .step 2, .step 2, .step 2, .notify 2 none, .notify 2 none, .step 2,
      .notify 2 none, .step 2, .open, .step 3, .step 3, .step 3, .notify 3 none, .step 3, .step 3,
      .step 3, .notify 3 none, .step 3, .step 3, .process x, .step 4, .step 4, .notify 4 none,
      .step 4, .shut, .step 5] (by cbv)
  have hh'' : machine.Reaches g'' h'' :=
    .of_run [.step 5, .step 5, .step 5, .notify 5 none, .notify 5 none, .step 5, .notify 5 none,
      .step 5, .finish 1 r, .step 4] (by cbv)
  exact ⟨hg, hh, hg', hh', hg'', hh''⟩

end Gate
end Inference
