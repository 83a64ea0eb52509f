import Inference.Machine

/-!
Runs of systems. A property of every reachable state is proved from what one action preserves; some
properties only hold of the runs whose actions meet a condition.
-/

namespace Inference.Machine

variable {σ α : Type}

-- The states that are reached by actions that meet a condition where they happen.
inductive ReachesBy (m : Machine σ α) (p : σ → α → Prop) (s : σ) : σ → Prop
  | refl : ReachesBy m p s s
  | step : ReachesBy m p s t → p t a → m.act t a = some u → ReachesBy m p s u

-- The actions of a schedule, each with the state in which it is taken.
def trace (m : Machine σ α) : σ → List α → List (σ × α)
  | _, []      => []
  | s, a :: as => (s, a) :: (m.act s a).elim [] (trace m · as)

variable {m : Machine σ α} {s t u : σ}

theorem ReachesBy.reaches {p : σ → α → Prop} (h : m.ReachesBy p s t) : m.Reaches s t := by
  induction h
  case refl          => exact .refl
  case step ha hi    => exact .step hi ha

theorem ReachesBy.imp {p q : σ → α → Prop} (h : m.ReachesBy p s t)
    (hpq : ∀ {t a}, p t a → q t a) : m.ReachesBy q s t := by
  induction h
  case refl          => exact .refl
  case step hp ha hi => exact .step hi (hpq hp) ha

theorem ReachesBy.preserves {p : σ → α → Prop} {I : σ → Prop} (h : m.ReachesBy p s t)
    (hs : I s) (hI : ∀ {t u a}, I t → p t a → m.act t a = some u → I u) : I t := by
  induction h
  case refl          => exact hs
  case step hp ha hi => exact hI hi hp ha

-- Where the condition forbids every action, a run goes nowhere.
theorem ReachesBy.eq_of_forall_not {p : σ → α → Prop} (h : m.ReachesBy p s t)
    (hs : ∀ a, ¬p s a) : t = s := by
  induction h
  case refl       => rfl
  case step hp _ hi => exact (hs _ (hi ▸ hp)).elim

theorem Reaches.preserves {I : σ → Prop} (h : m.Reaches s t)
    (hs : I s) (hI : ∀ {t u a}, I t → m.act t a = some u → I u) : I t := by
  induction h
  case refl       => exact hs
  case step ha hi => exact hI hi ha

theorem Reaches.trans (h₁ : m.Reaches s t) (h₂ : m.Reaches t u) : m.Reaches s u := by
  induction h₂
  case refl       => exact h₁
  case step ha hi => exact .step hi ha

theorem ReachesBy.trans {p : σ → α → Prop} (h₁ : m.ReachesBy p s t) (h₂ : m.ReachesBy p t u) :
    m.ReachesBy p s u := by
  induction h₂
  case refl          => exact h₁
  case step hp ha hi => exact .step hi hp ha

theorem reachesBy_settle {p : σ → α → Prop} {pick : σ → Option α}
    (hp : ∀ {s a}, pick s = some a → p s a) (n : Nat) (s : σ) :
    m.ReachesBy p s (m.settle pick n s) := by
  induction n generalizing s
  case zero => exact .refl
  case succ n hi =>
    rw [settle]
    split
    case h_1 h =>
      have ⟨_, ha, h⟩ := Option.bind_eq_some_iff.mp h
      exact .trans (.step .refl (hp ha) h) (hi _)
    case h_2 => exact .refl

theorem ReachesBy.of_run {p : α → Prop} (as : List α) (h : m.run s as = some t)
    (hp : ∀ a ∈ as, p a) : m.ReachesBy (fun _ => p) s t := by
  induction as generalizing s
  case nil =>
    simp only [run, Option.some.injEq] at h
    exact h ▸ .refl
  case cons a as hi =>
    simp only [run, Option.bind_eq_bind, Option.bind_eq_some_iff] at h
    have ⟨_, ha, h⟩ := h
    have ⟨hp, hp'⟩ := List.forall_mem_cons.mp hp
    exact .trans (.step .refl hp ha) (hi h hp')

theorem ReachesBy.exists_of_run {p : α → Prop} {P : σ → Bool} (as : List α)
    (h : (m.run s as).any P) (hp : ∀ a ∈ as, p a) : ∃ t, m.ReachesBy (fun _ => p) s t ∧ P t :=
  have ⟨t, ht, hP⟩ := Option.any_eq_true _ _ |>.mp h
  ⟨t, .of_run as ht hp, hP⟩

-- A run of one action more, from its first action on.
theorem run_cons_eq_some {a : α} {as : List α} (h : m.run s (a :: as) = some t) :
    ∃ u, m.act s a = some u ∧ m.run u as = some t ∧
      m.trace s (a :: as) = (s, a) :: m.trace u as := by
  simp only [run, Option.bind_eq_bind, Option.bind_eq_some_iff] at h
  have ⟨u, ha, h⟩ := h
  exact ⟨u, ha, h, by rw [trace, ha]; rfl⟩

-- What an observer sees of a schedule who does not see every action.
def seen {ρ : Type} (m : Machine σ α) (see : σ → α → Option ρ) (s : σ) (as : List α) : List ρ :=
  (m.trace s as).filterMap fun x => see x.1 x.2

theorem seen_cons {ρ : Type} (see : σ → α → Option ρ) {a : α} (as : List α)
    (h : m.act s a = some u) : m.seen see s (a :: as) = (see s a).toList ++ m.seen see u as := by
  rw [seen, trace, h, List.filterMap_cons]
  cases see s a <;> rfl

-- A part of the state that only changes by what is seen.
theorem foldl_of_run {ρ τ : Type} {see : σ → α → Option ρ} {view : σ → τ} {f : τ → ρ → τ} {r : ρ}
    {I : σ → Prop} (hI : ∀ {s t a}, I s → see s a ≠ some r → m.act s a = some t →
      I t ∧ view t = (see s a).toList.foldl f (view s))
    (as : List α) (h : m.run s as = some t) (hs : I s) (hr : r ∉ m.seen see s as) :
    view t = (m.seen see s as).foldl f (view s) := by
  induction as generalizing s
  case nil =>
    simp only [run, Option.some.injEq] at h
    exact h ▸ rfl
  case cons a as hi =>
    have ⟨u, ha, h, _⟩ := run_cons_eq_some h
    rw [seen_cons see as ha, List.mem_append, not_or] at hr
    have ⟨hu, hv⟩ := hI hs (fun hs => hr.left (by simp [hs])) ha
    rw [hi h hu hr.right, hv, seen_cons see as ha, List.foldl_append]

theorem Reaches.of_run (as : List α) (h : m.run s as = some t) : m.Reaches s t :=
  (ReachesBy.of_run (p := fun _ => True) as h fun _ _ => trivial).reaches

end Inference.Machine
