import Inference.Proofs.Gate.Progress

/-!
What a shutting does to the lanes. A lane is ended, and then everybody who is parked there is woken,
so that nobody stays parked at a lane that is ended. Only an opening makes a lane go on.
-/

namespace Inference

namespace Caller

variable {α : Type} {q q' : Queue α} {k k' : Caller α} {x : α}

-- A queue is ended by one request and goes on by another one.
theorem lock?_ended (hk : k.Tends ∨ ∃ x, k.Serves (.push x)) (h : k.lock? q = some (q', k')) :
    q'.ended = q.ended ∨
      q'.ended ∧ k' = notifying [.all .notEmpty, .all .notFull] .done ∨
      k = entering .reopen := by
  rcases hk with (hk | hk | hk) | ⟨x, hk⟩
  · exact .inl <| (lock?_clear hk h).right.left ▸ rfl
  · obtain ⟨rfl, rfl⟩ := lock?_close hk h
    exact .inr <| .inl ⟨rfl, rfl⟩
  · refine .inr <| .inr <| (lock?_eq hk h).right.resolve_right ?_
    rintro rfl
    simp [Serves, Request.cond?] at hk
  · cases lock?_push hk h <;> exact .inl rfl

theorem lock?_pop_ended (hk : k.Serves .pop) (h : k.lock? q = some (q', k')) :
    q'.ended = q.ended ∧ (q.ended → ∀ c, k'.isParkedAt c = false) := by
  cases lock?_pop hk h
  case miss      => exact ⟨rfl, fun _ _ => rfl⟩
  case wait he _ => exact ⟨rfl, fun h => by simp [he] at h⟩
  case take      => exact ⟨rfl, fun _ _ => rfl⟩

end Caller

-- Is part of an opening.
def Task.Reopens : Task → Prop
  | .check | .open => True
  | .ask _ c => c = .entering .reopen
  | _ => False

-- A call that waits for the lifecycle is an opening, or has nothing to open.
def Stage.Intends : Stage → Prop
  | queued todo _ => todo = [.check] ∨ ∀ a ∈ todo, ¬a.Reopens
  | _ => True

theorem Stage.intends_of_queued {s : Stage} (h : ∀ todo o, s ≠ queued todo o) : s.Intends := by
  cases s
  case queued todo o => exact (h todo o rfl).elim
  all_goals trivial

namespace Gate

variable {g g' : Gate} {s s' : Stage} {i l : ℕ} {t : Task}

theorem not_reopens_shutting (g : Gate) : ∀ a ∈ g.shutting, ¬a.Reopens := by
  simp only [shutting, List.forall_mem_append, List.mem_flatMap, List.mem_range, List.mem_cons,
    List.not_mem_nil, or_false]
  refine ⟨?_, ?_⟩
  · rintro _ (rfl | rfl) <;> exact id
  · rintro _ ⟨l, _, rfl | rfl⟩ <;> simp [Task.Reopens]

theorem close_mem_shutting (hl : l < g.lanes.length) : .ask l (.entering .close) ∈ g.shutting := by
  simp [shutting, hl]

theorem intends_giveBack (g : Gate) (x : Input) (t : Ticket) (o : Outcome) :
    (g.giveBack x t o).Intends := .inr <| List.forall_mem_singleton.mpr id

theorem intends_accept (g : Gate) (x : Input) : (g.accept x).Intends := by
  rw [accept]
  split
  · trivial
  · split
    · trivial
    · dsimp only
      split <;> trivial

theorem intends_afterPop (x : Input) (c : Caller Ticket) : (Stage.afterPop x c).Intends := by
  refine Stage.intends_of_queued fun todo o h => ?_
  cases c
  case returned a => cases a <;> first | cases h | (rename_i y; cases y <;> cases h)
  all_goals cases h

theorem intends_afterAsk (lane : ℕ) (todo : List Task) (o : Outcome) (c : Caller Ticket) :
    (Stage.afterAsk lane todo o c).Intends := by
  rcases Stage.afterAsk_cases lane todo o c with ⟨_, _, h⟩ | h <;> exact h ▸ trivial

theorem Moves.intends (h : g.Moves s g' s') : s'.Intends := by
  cases h
  case accept x   => exact g.intends_accept x
  case pop        => exact intends_afterPop ..
  case refuse     => exact intends_giveBack ..
  case ask        => exact intends_afterAsk ..
  all_goals trivial

theorem Tells.intends (h : Tells s s') : s'.Intends := by
  cases h
  case pop => exact intends_afterPop ..
  case ask => exact intends_afterAsk ..

theorem intends_wakeStage (lane : ℕ) (c : Cond) (h : s.Intends) :
    (g.wakeStage lane c s).Intends := by
  cases s <;> exact h

theorem Step.intends {a : Action} (h : g.Step a g') (hg : ∀ s ∈ g.calls, s.Intends) :
    ∀ s ∈ g'.calls, s.Intends := by
  have hadd {s : Stage} (hs : s.Intends) : ∀ r ∈ (g.addCall s).calls, r.Intends :=
    List.forall_mem_append.mpr ⟨hg, List.forall_mem_singleton.mpr hs⟩
  cases h
  case process    => exact hadd trivial
  case «open»     => exact hadd <| .inl rfl
  case shut       => exact hadd <| .inr g.not_reopens_shutting
  case create     => exact hg
  case move hm    => exact forall_mem_set _ (hm.calls ▸ hg) hm.intends
  case notify l hr hi ht =>
    have hl : ∀ s ∈ l, s.Intends := hr.forall_mem (fun _ => intends_wakeStage _ _) hg
    exact forall_mem_set _ hl ht.intends
  case finish     => exact forall_mem_set _ hg <| intends_giveBack ..

-- Only the call that has the lifecycle, or gets it, changes what is left to do.
theorem Moves.agenda_eq (h : g.Moves s g' s') (hs : g.Sound) (hi : g.calls[i]? = some s) :
    (g'.setCall i s').agenda = g.agenda ∧ s.agenda = [] ∧ s'.agenda = [] ∨
      g.agenda = s.agenda ∧ (g'.setCall i s').agenda = s'.agenda := by
  have hi' : g'.calls[i]? = some s := h.calls ▸ hi
  by_cases hw : tally Stage.works g.calls ≤ s.works
  case pos =>
    exact .inr ⟨Gate.agenda_eq hi hw, agenda_setCall hi' (h.calls ▸ hw)⟩
  case neg =>
    have hs₀ : s.works = 0 := by
      have := hs.alone
      omega
    have hs' : s'.works = 0 := by
      cases h
      case accept x   => exact g.works_accept x
      case pop        => exact Stage.works_afterPop ..
      case begin hb   =>
        refine (hw ?_).elim
        exact Nat.le_of_eq <| tally_eq_zero_iff.mpr fun s hs => by simp_all [Stage.works]
      all_goals first | rfl | cases hs₀
    have ha := agenda_setCall_idle hi' hs₀ hs'
    refine .inl ⟨ha.trans ?_, Stage.agenda_eq_nil hs₀, Stage.agenda_eq_nil hs'⟩
    rw [agenda, agenda, h.calls]

-- A task is left to do until it is its turn.
theorem Moves.mem_agenda (h : g.Moves s g' s') (hs : g.Sound) (hi : g.calls[i]? = some s)
    (ht : t ∈ g.agenda) :
    t ∈ (g'.setCall i s').agenda ∨ ∃ todo o, s = .working (t :: todo) o := by
  rcases h.agenda_eq hs hi with ⟨ha, _, _⟩ | ⟨ha, ha'⟩
  case inl => exact .inl (ha ▸ ht)
  case inr =>
    rw [ha] at ht
    rw [ha']
    cases h
    case begin => exact absurd ht (List.not_mem_nil)
    case plan todo o _ =>
      rcases List.mem_cons.mp ht with rfl | ht
      · exact .inr ⟨_, _, rfl⟩
      · exact .inl <| List.mem_append_right _ ht
    case allow todo o _ =>
      rcases List.mem_cons.mp ht with rfl | ht
      · exact .inr ⟨_, _, rfl⟩
      · exact .inl <| List.mem_cons_of_mem _ ht
    case ask lane todo o c q q' c' hq hl =>
      rcases List.mem_cons.mp ht with rfl | ht
      · exact .inr ⟨_, _, rfl⟩
      · rcases Stage.afterAsk_cases lane todo o c' with ⟨_, _, h⟩ | h <;> rw [h]
        · exact .inl ht
        · exact .inl <| List.mem_cons_of_mem _ ht
    all_goals
      first
      | exact absurd ht List.not_mem_nil
      | (rcases List.mem_cons.mp ht with rfl | ht
         · exact .inr ⟨_, _, rfl⟩
         · exact .inl ht)

-- The call that has the lifecycle is about to wake everybody who is parked at a lane.
def Summons (g : Gate) (l : ℕ) : Prop :=
  ∃ owed a, .ask l (.notifying (.all .notEmpty :: owed) a) ∈ g.agenda

-- Nobody is parked at a lane that is ended, unless he is about to be woken.
def Wakeful (g : Gate) : Prop :=
  ∀ l q, g.lanes[l]? = some q → q.ended → ∀ s ∈ g.calls, g.isParkedAt l .notEmpty s → g.Summons l

theorem isParkedAt_wakeStage {lane : ℕ} {c d : Cond}
    (h : g.isParkedAt l c (g.wakeStage lane d s)) : g.isParkedAt l c s := by
  cases s
  case popping x k =>
    simp only [isParkedAt, wakeStage, Bool.and_eq_true] at h ⊢
    refine ⟨h.left, ?_⟩
    split at h
    · cases k
      case parked r c' =>
        simp only [Caller.wake] at h
        split at h
        · exact absurd h.right Bool.false_ne_true
        · exact h.right
      all_goals exact h.right
    · exact h.right
  all_goals exact h

theorem not_parked_wakeStage (g : Gate) (l : ℕ) (c : Cond) (s : Stage) :
    g.isParkedAt l c (g.wakeStage l c s) = false := by
  cases s
  case popping x k =>
    simp only [isParkedAt, wakeStage]
    split
    · cases k
      case parked r d =>
        simp only [Caller.wake]
        split <;> simp_all [Caller.isParkedAt]
      all_goals simp [Caller.wake, Caller.isParkedAt]
    · simp_all
  all_goals rfl

theorem not_parked_afterPop (x : Input) (owed : List Wake) (a : Answer Ticket) (c : Cond) :
    g.isParkedAt l c (.afterPop x (.owing owed a)) = false := by
  cases owed
  case nil  => cases a <;> first | rfl | (rename_i y; cases y <;> rfl)
  case cons => simp [Caller.owing, Stage.afterPop, isParkedAt, Caller.isParkedAt]

theorem not_parked_afterAsk (lane : ℕ) (todo : List Task) (o : Outcome) (k : Caller Ticket)
    (c : Cond) : g.isParkedAt l c (.afterAsk lane todo o k) = false := by
  rcases Stage.afterAsk_cases lane todo o k with ⟨_, _, h⟩ | h <;> exact h ▸ rfl

theorem Moves.isParkedAt_eq (h : g.Moves s g' s') : g'.isParkedAt = g.isParkedAt := by
  cases h <;> rfl

theorem not_parked_accept (g : Gate) (x : Input) (c : Cond) :
    g.isParkedAt l c (g.accept x) = false := by
  rw [accept]
  split
  · rfl
  · split
    · rfl
    · dsimp only
      split
      · simp [isParkedAt, Caller.isParkedAt]
      · rfl

-- Nobody parks at a lane that is ended.
theorem Moves.not_parked {q : Queue Ticket} (h : g.Moves s g' s')
    (hf : s.Fits g.laneOf g.lanes.length) (hq : g'.lanes[l]? = some q) (he : q.ended) (c : Cond) :
    g.isParkedAt l c s' = false := by
  cases h
  case accept x => exact g.not_parked_accept x c
  case pop x k q₀ q' k' hq₀ hl =>
    have ⟨hq', hk'⟩ := Caller.lock?_pop_ended hf.left hl
    cases k'
    case parked r d =>
      by_cases hx : g.laneOf x.backendIndex = l
      case neg => simp [Stage.afterPop, isParkedAt, hx]
      case pos =>
        subst hx
        rcases lanes_setLane hq with ⟨_, rfl⟩ | ⟨hne, _⟩
        · simpa [Stage.afterPop, isParkedAt] using hk' (hq' ▸ he) c
        · exact (hne rfl).elim
    case returned a => cases a <;> first | rfl | (rename_i y; cases y <;> rfl)
    all_goals simp [Stage.afterPop, isParkedAt, Caller.isParkedAt]
  case ask => exact not_parked_afterAsk ..
  all_goals rfl

-- Where a lane is ended, everybody who is parked there is woken next.
theorem Moves.ended {q : Queue Ticket} (h : g.Moves s g' s') (hs : g.Sound)
    (hi : g.calls[i]? = some s) (hq : g'.lanes[l]? = some q) (he : q.ended) :
    (∃ q₀, g.lanes[l]? = some q₀ ∧ q₀.ended) ∨ (g'.setCall i s').Summons l := by
  have hf := hs.fits _ <| List.mem_of_getElem? hi
  have ha := h.agenda_eq hs hi
  cases h
  case pop x k q₀ q' k' hq₀ hl =>
    rcases lanes_setLane hq with ⟨rfl, rfl⟩ | ⟨_, hq⟩
    · exact .inl ⟨q₀, hq₀, (Caller.lock?_pop_ended hf.left hl).left ▸ he⟩
    · exact .inl ⟨q, hq, he⟩
  case ask lane todo o k q₀ q' k' hq₀ hl =>
    rcases lanes_setLane hq with ⟨rfl, rfl⟩ | ⟨_, hq⟩
    · have ⟨ha, ha'⟩ := ha.resolve_left fun h => List.cons_ne_nil _ _ h.right.left
      rcases Caller.lock?_ended (hs.asks ha) hl with h | ⟨_, rfl⟩ | rfl
      · exact .inl ⟨q₀, hq₀, h ▸ he⟩
      · refine .inr ⟨[.all .notFull], .done, ?_⟩
        rw [ha']
        exact List.mem_cons_self
      · have hr : q = { q₀ with ended := false } := (Caller.lock?_reopen (by rfl) hl).left
        simp [hr] at he
    · exact .inl ⟨q, hq, he⟩
  all_goals exact .inl ⟨q, hq, he⟩

theorem Moves.summons (h : g.Moves s g' s') (hs : g.Sound) (hi : g.calls[i]? = some s)
    (hl : g.Summons l) : (g'.setCall i s').Summons l := by
  obtain ⟨owed, a, ht⟩ := hl
  refine ⟨owed, a, (h.mem_agenda hs hi ht).resolve_right ?_⟩
  rintro ⟨todo, o, rfl⟩
  cases h
  case ask hl => simp [Caller.lock?] at hl

theorem Moves.wakeful (h : g.Moves s g' s') (hs : g.Sound) (hi : g.calls[i]? = some s)
    (hg : g.Wakeful) : (g'.setCall i s').Wakeful := by
  intro l q hq he r hr hp
  change g'.isParkedAt l .notEmpty r at hp
  rw [h.isParkedAt_eq] at hp
  have hr : r ∈ g.calls := by
    refine h.calls ▸ (List.mem_or_eq_of_mem_set hr).resolve_right ?_
    rintro rfl
    have := h.not_parked (hs.fits _ <| List.mem_of_getElem? hi) hq he .notEmpty
    simp_all
  rcases h.ended hs hi hq he with ⟨q₀, hq₀, he₀⟩ | h'
  · exact h.summons hs hi <| hg l q₀ hq₀ he₀ r hr hp
  · exact h'

-- Whoever is parked after a notification was parked before, and was not notified.
theorem parked_of_wake {lane : ℕ} {w : Wake} {target : Option ℕ} {c : Cond}
    (h : g.wake lane w target = some g') (hs : s ∈ g'.calls) (hp : g.isParkedAt l c s) :
    (∃ r ∈ g.calls, g.isParkedAt l c r) ∧ (l = lane → w ≠ .all c) := by
  refine ⟨?_, ?_⟩
  · obtain ⟨d, calls, hr, rfl⟩ := roused_wake h
    obtain ⟨r, hr, rfl | rfl⟩ := hr.mem hs
    · exact ⟨_, hr, hp⟩
    · exact ⟨_, hr, isParkedAt_wakeStage hp⟩
  · rintro rfl rfl
    cases target <;> simp only [wake, Option.some.injEq, reduceCtorEq] at h
    subst h
    obtain ⟨r, _, hr⟩ := List.mem_map.mp hs
    rw [← hr, not_parked_wakeStage] at hp
    exact Bool.false_ne_true hp

theorem notify_wakeful {target : Option ℕ} (h : g.notify i target = some g') (hs : g.Sound)
    (hg : g.Wakeful) : g'.Wakeful := by
  intro l q hq he r hr hp
  rcases notify_cases h with
    ⟨x, w, owed, a, hi, g₁, hw, rfl⟩ | ⟨lane, w, owed, a, todo, o, hi, g₁, hw, rfl⟩ <;>
    obtain ⟨d, calls, hr₁, rfl⟩ := roused_wake hw
  case inl =>
    have hr := (List.mem_or_eq_of_mem_set hr).resolve_right <| by
      rintro rfl
      exact Bool.false_ne_true <| (not_parked_afterPop (g := g) x owed a _).symm.trans hp
    obtain ⟨⟨r, hr, hp⟩, _⟩ := parked_of_wake hw hr hp
    obtain ⟨owed', a', ht⟩ := hg l q hq he r hr hp
    refine ⟨owed', a', ?_⟩
    have hi' := getElem?_of_tells hr₁ hi (.pop x w owed a)
    rw [agenda_setCall_idle (g := { g with calls }) hi' rfl (by simp), agenda, agenda_roused hr₁]
    exact ht
  case inr =>
    have hr := (List.mem_or_eq_of_mem_set hr).resolve_right <| by
      rintro rfl
      exact Bool.false_ne_true <| (not_parked_afterAsk (g := g) lane todo o _ _).symm.trans hp
    obtain ⟨⟨r, hr, hp⟩, hn⟩ := parked_of_wake hw hr hp
    obtain ⟨owed', a', ht⟩ := hg l q hq he r hr hp
    refine ⟨owed', a', ?_⟩
    have hi' := getElem?_of_tells hr₁ hi (.ask lane w owed a todo o)
    rw [agenda_setCall (g := { g with calls }) hi' (hs.roused hr₁).alone]
    rw [Gate.agenda_eq hi hs.alone] at ht
    rcases List.mem_cons.mp ht with ht | ht
    · cases ht
      exact (hn rfl rfl).elim
    · rcases Stage.afterAsk_cases lane todo o (.owing owed a) with ⟨_, _, h⟩ | h <;> rw [h]
      · exact ht
      · exact List.mem_cons_of_mem _ ht

theorem act_wakeful {a : Action} (h : g.act a = some g') (hs : g.Sound) (hg : g.Wakeful) :
    g'.Wakeful := by
  have hadd {s : Stage} (hw : s.works = 0) (hp : ∀ l, g.isParkedAt l .notEmpty s = false) :
      (g.addCall s).Wakeful := by
    intro l q hq he r hr h
    obtain ⟨owed, a, ht⟩ := hg l q hq he r ((List.mem_append.mp hr).resolve_right fun hr => by
      rw [List.mem_singleton.mp hr] at h
      exact Bool.false_ne_true <| (hp l).symm.trans h) h
    refine ⟨owed, a, ?_⟩
    rwa [agenda_addCall hw]
  cases a
  case notify i target => exact notify_wakeful h hs hg
  all_goals have h := step_of_act h; cases h
  case process.process => exact hadd rfl fun _ => rfl
  case «open».«open»   => exact hadd rfl fun _ => rfl
  case shut.shut       => exact hadd rfl fun _ => rfl
  case create.create   => exact hg
  case step.move hm hi => exact hm.wakeful hs hi hg
  case finish.finish hi =>
    intro l q hq he s hs h
    have hs := (List.mem_or_eq_of_mem_set hs).resolve_right <| by
      rintro rfl
      exact Bool.false_ne_true h
    obtain ⟨owed, a, ht⟩ := hg l q hq he s hs h
    refine ⟨owed, a, ?_⟩
    rwa [agenda_setCall_idle hi rfl rfl]

-- No opening has the lifecycle, and every lane is ended or about to be.
structure Halted (g : Gate) : Prop where
  idle  : ∀ t ∈ g.agenda, ¬t.Reopens
  ended : ∀ l q, g.lanes[l]? = some q → q.ended ∨ .ask l (.entering .close) ∈ g.agenda

theorem halted_shutting (ha : g.agenda = g.shutting) : g.Halted where
  idle        := ha ▸ g.not_reopens_shutting
  ended _ _ h := .inr <| ha ▸ close_mem_shutting (List.getElem?_eq_some_iff.mp h).choose

theorem not_reopens_afterAsk {lane : ℕ} {todo : List Task} {o : Outcome} {c : Caller Ticket}
    (hc : c ≠ .entering .reopen) (ht : ∀ t ∈ todo, ¬t.Reopens) :
    ∀ t ∈ (Stage.afterAsk lane todo o c).agenda, ¬t.Reopens := by
  rcases Stage.afterAsk_cases lane todo o c with ⟨_, _, h⟩ | h <;> rw [h]
  · exact ht
  · exact List.forall_mem_cons.mpr ⟨hc, ht⟩

theorem Moves.idle (h : g.Moves s g' s') (hs : g.Sound) (hi : g.calls[i]? = some s)
    (hq : s.Intends) (hb : ∀ o, s ≠ .queued [.check] o) (hg : ∀ t ∈ g.agenda, ¬t.Reopens) :
    ∀ t ∈ (g'.setCall i s').agenda, ¬t.Reopens := by
  rcases h.agenda_eq hs hi with ⟨ha, _, _⟩ | ⟨ha, ha'⟩
  case inl => exact ha ▸ hg
  case inr =>
    rw [ha] at hg
    rw [ha']
    cases h
    case begin todo o _ => exact hq.resolve_left fun h => hb o (h ▸ rfl)
    case plan           => exact absurd trivial (List.forall_mem_cons.mp hg).left
    case allow          =>
      have hg := (List.forall_mem_cons.mp hg).right
      exact List.forall_mem_cons.mpr ⟨by simp [Task.Reopens], hg⟩
    case ask hl         =>
      have hg := (List.forall_mem_cons.mp hg).right
      exact not_reopens_afterAsk (Caller.lock?_ne_entering hl _).symm hg
    case accept x       => exact Stage.agenda_eq_nil (g.works_accept x) ▸ hg
    case pop            => exact Stage.agenda_eq_nil (Stage.works_afterPop ..) ▸ hg
    all_goals first | exact hg | exact (List.forall_mem_cons.mp hg).right

theorem Moves.halted (h : g.Moves s g' s') (hs : g.Sound) (hi : g.calls[i]? = some s)
    (hq : s.Intends) (hb : ∀ o, s ≠ .queued [.check] o) (hg : g.Halted) :
    (g'.setCall i s').Halted where
  idle  := h.idle hs hi hq hb hg.idle
  ended := by
    intro l q hl
    have hf := hs.fits _ <| List.mem_of_getElem? hi
    have ht := h.mem_agenda (t := .ask l (.entering .close)) hs hi
    have ha := h.agenda_eq hs hi
    cases h
    case pop x k q₀ q' k' hq₀ hk =>
      have ht (h) := (ht h).resolve_right fun ⟨_, _, h⟩ => by cases h
      rcases lanes_setLane hl with ⟨rfl, rfl⟩ | ⟨_, hl⟩
      · exact (hg.ended _ _ hq₀).imp (fun h => (Caller.lock?_pop_ended hf.left hk).left ▸ h) ht
      · exact (hg.ended l q hl).imp id ht
    case ask lane todo o k q₀ q' k' hq₀ hk =>
      have ha' := (ha.resolve_left fun h => List.cons_ne_nil _ _ h.right.left).left
      rcases lanes_setLane hl with ⟨rfl, rfl⟩ | ⟨hne, hl⟩
      case inl =>
        rcases Caller.lock?_ended (hs.asks ha') hk with h | h | rfl
        · rcases hg.ended l q₀ hq₀ with he | hm
          · exact .inl (h ▸ he)
          · rcases ht hm with hm | ⟨_, _, hc⟩
            · exact .inr hm
            · cases hc
              exact .inl <| (Caller.lock?_close (by rfl) hk).left ▸ rfl
        · exact .inl h.left
        · have hm : .ask l (.entering .reopen) ∈ g.agenda := by simp [ha']
          exact (hg.idle _ hm rfl).elim
      case inr =>
        refine (hg.ended l q hl).imp id fun h => (ht h).resolve_right ?_
        rintro ⟨_, _, h⟩
        cases h
        exact hne rfl
    all_goals
      exact (hg.ended l q hl).imp id fun h => (ht h).resolve_right fun ⟨_, _, h⟩ => by cases h

theorem Halted.of_eq (hg : g.Halted) (hl : g'.lanes = g.lanes) (ha : g'.agenda = g.agenda) :
    g'.Halted :=
  ⟨ha ▸ hg.idle, fun l q hq => ha ▸ hg.ended l q (hl ▸ hq)⟩

theorem Tells.halted (h : Tells s s') (hs : g.Sound) (hi : g.calls[i]? = some s) (hg : g.Halted) :
    (g.setCall i s').Halted := by
  cases h
  case pop => exact hg.of_eq rfl <| agenda_setCall_idle hi rfl (by simp)
  case ask lane w owed a todo o =>
    have ha := agenda_eq hi hs.alone
    have ha' : (g.setCall i (.afterAsk lane todo o (.owing owed a))).agenda = _ :=
      agenda_setCall hi hs.alone
    constructor
    case idle =>
      have hc := Caller.entering_ne_owing (.reopen : Request Ticket) owed a
      exact ha' ▸ not_reopens_afterAsk hc.symm (List.forall_mem_cons.mp (ha ▸ hg.idle)).right
    case ended =>
      intro l q hq
      refine (hg.ended l q hq).imp id fun ht => ?_
      rw [ha', Stage.mem_afterAsk (by simp)]
      exact List.mem_of_ne_of_mem (by simp) (ha ▸ ht)

theorem Step.halted {a : Action} (h : g.Step a g') (hs : g.Sound)
    (hq : ∀ s ∈ g.calls, s.Intends) (hb : ¬g.Begins a) (hg : g.Halted) : g'.Halted := by
  cases h
  case process => exact hg.of_eq rfl <| agenda_addCall rfl
  case «open»  => exact hg.of_eq rfl <| agenda_addCall rfl
  case shut    => exact hg.of_eq rfl <| agenda_addCall rfl
  case create  => exact hg.of_eq rfl rfl
  case move hi hm =>
    exact hm.halted hs hi (hq _ <| List.mem_of_getElem? hi) (fun o h => hb ⟨o, h ▸ hi⟩) hg
  case notify hr hi ht =>
    exact ht.halted (hs.roused hr) hi <| hg.of_eq rfl <| agenda_roused hr
  case finish hi => exact hg.of_eq rfl <| agenda_setCall_idle hi rfl rfl

-- Without an opening a gate that is shut stays shut.
theorem Step.shut_of_halted {a : Action} (h : g.Step a g') (hs : g.Sound) (hg : g.Halted)
    (ho : g.isOpen = false) : g'.isOpen = false := by
  cases h
  case move hi hm =>
    rw [← Bool.not_eq_true]
    intro ho'
    obtain ⟨todo, o, rfl⟩ := (hm.opens ho').resolve_left (by simp [ho])
    exact hg.idle .open (agenda_eq hi hs.alone ▸ List.mem_cons_self) trivial
  all_goals exact ho

end Gate
end Inference
