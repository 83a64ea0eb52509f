import Inference.Proofs.Gate.Steps

/-!
What the call that has the lifecycle of a gate still has to do. An opening first tends to every
lane, then puts each instance into its lane, and opens last. A shutting shuts, begins the next
generation, and then tends to every lane. A ticket is put back by a call that has compared its
generation.
-/

namespace Inference

namespace Task

-- Is about a lane as a whole.
def Tends : Task → Prop
  | ask _ c => c.Tends
  | _ => False

-- Puts a ticket of a generation into its own lane, or prepares that.
def Fills (lane : ℕ → ℕ) (generation : ℕ) : Task → Prop
  | assign .. => True
  | ask l c => ∃ t, c.Serves (.push t) ∧ lane t.handle = l ∧ t.generation = generation
  | _ => False

end Task

namespace Gate

-- What a call takes on when it begins to wait for the lifecycle.
inductive Errand (lane : ℕ → ℕ) (n : ℕ) : List Task → Prop
  | open : Errand lane n [.check]
  | shut {tend} : (∀ a ∈ tend, a.Tends) → (∀ l < n, .ask l (.entering .clear) ∈ tend) →
      Errand lane n (.shut :: .advance :: tend)
  | give (t) : Errand lane n [.compare (lane t.handle) t]

inductive Filling (lane : ℕ → ℕ) (G : ℕ) : List Task → Prop
  | open : Filling lane G [.open]
  | cons {a todo} : a.Fills lane G → Filling lane G todo → Filling lane G (a :: todo)

inductive Opening (lane : ℕ → ℕ) (G : ℕ) : List Task → Prop
  | filling {todo} : Filling lane G todo → Opening lane G todo
  | cons {a todo} : a.Tends → Opening lane G todo → Opening lane G (a :: todo)

-- What can be left to do, by the number of lanes, the generation, and whether the gate is open.
inductive Agenda (lane : ℕ → ℕ) (n G : ℕ) (isOpen : Bool) : List Task → Prop
  | done : Agenda lane n G isOpen []
  | errand {todo} : Errand lane n todo → Agenda lane n G isOpen todo
  | returning {c t} : c.Serves (.push t) → t.generation = G →
      Agenda lane n G isOpen [.ask (lane t.handle) c]
  | opening {todo} : isOpen = false → Opening lane G todo → Agenda lane n G isOpen todo
  | advancing {tend} : isOpen = false → (∀ a ∈ tend, a.Tends) →
      (∀ l < n, .ask l (.entering .clear) ∈ tend) → Agenda lane n G isOpen (.advance :: tend)
  | tidying {todo} : isOpen = false → (∀ a ∈ todo, a.Tends) → Agenda lane n G isOpen todo

variable {g : Gate} {lane : ℕ → ℕ} {n G l : ℕ} {o : Bool} {todo : List Task}
  {c c' : Caller Ticket}

theorem errand_shutting (g : Gate) : Errand g.laneOf g.lanes.length g.shutting := by
  change Errand _ _ (.shut :: .advance :: List.flatMap _ _)
  refine .shut (fun a ha => ?_) fun l hl => ?_
  · simp only [List.mem_flatMap, List.mem_cons, List.not_mem_nil, or_false] at ha
    obtain ⟨l, -, rfl | rfl⟩ := ha
    · exact .inr <| .inl rfl
    · exact .inl rfl
  · simp only [List.mem_flatMap, List.mem_range]
    exact ⟨l, hl, by simp⟩

theorem Filling.append {fill : List Task} (hf : ∀ a ∈ fill, a.Fills lane G) :
    Filling lane G (fill ++ [.open]) := by
  induction fill
  case nil => exact .open
  case cons hi =>
    rw [List.forall_mem_cons] at hf
    exact .cons hf.left (hi hf.right)

theorem Opening.append {tend : List Task} (ht : ∀ a ∈ tend, a.Tends) (h : Filling lane G todo) :
    Opening lane G (tend ++ todo) := by
  induction tend
  case nil => exact .filling h
  case cons hi =>
    rw [List.forall_mem_cons] at ht
    exact .cons ht.left (hi ht.right)

theorem opening_opening (g : Gate) : Opening g.laneOf g.generation g.opening := by
  rw [opening, List.append_assoc]
  refine .append (fun a ha => ?_) <| .append fun a ha => ?_
  · simp only [List.mem_flatMap, List.mem_cons, List.not_mem_nil, or_false] at ha
    obtain ⟨l, -, rfl | rfl⟩ := ha
    · exact .inl rfl
    · exact .inr <| .inr rfl
  · simp only [List.mem_flatMap, List.mem_cons, List.not_mem_nil, or_false] at ha
    obtain ⟨h, -, rfl | rfl⟩ := ha
    · trivial
    · exact ⟨⟨h, g.generation⟩, rfl, rfl, rfl⟩

theorem Filling.clear_not_mem (h : Filling lane G todo) (l : ℕ) :
    .ask l (.entering .clear) ∉ todo := by
  induction h
  case «open» => simp
  case cons a todo ha _ hi =>
    intro hm
    rcases List.mem_cons.mp hm with rfl | hm
    · have ⟨_, hs, _⟩ := ha
      simp [Caller.Serves] at hs
    · exact hi hm

theorem Filling.advance_not_mem (h : Filling lane G todo) : .advance ∉ todo := by
  induction h
  case «open» => simp
  case cons a todo ha _ hi =>
    intro hm
    rcases List.mem_cons.mp hm with rfl | hm
    · exact ha
    · exact hi hm

theorem Opening.advance_not_mem (h : Opening lane G todo) : .advance ∉ todo := by
  induction h
  case filling h => exact h.advance_not_mem
  case cons a todo ha _ hi =>
    intro hm
    rcases List.mem_cons.mp hm with rfl | hm
    · exact ha
    · exact hi hm

theorem Opening.head {a : Task} (h : Opening lane G (a :: todo)) :
    a.Tends ∧ Opening lane G todo ∨ a.Fills lane G ∧ Filling lane G todo ∨
      a = .open ∧ todo = [] := by
  cases h
  case filling h =>
    cases h
    case «open»  => exact .inr <| .inr ⟨rfl, rfl⟩
    case cons ha h => exact .inr <| .inl ⟨ha, h⟩
  case cons ha h => exact .inl ⟨ha, h⟩

namespace Agenda

theorem tail (h : Agenda lane n G o (.ask l c :: todo)) : Agenda lane n G o todo := by
  cases h
  case errand h     => cases h
  case returning    => exact .done
  case tidying ho h => exact .tidying ho (List.forall_mem_cons.mp h).right
  case opening ho h =>
    rcases h.head with ⟨_, h⟩ | ⟨_, h⟩ | ⟨h, _⟩
    · exact .opening ho h
    · exact .opening ho (.filling h)
    · simp at h

-- The caller may stand anywhere in its request.
theorem go (h : Agenda lane n G o (.ask l c :: todo)) (hc : ∀ r, c.Serves r → c'.Serves r) :
    Agenda lane n G o (.ask l c' :: todo) := by
  have ht : c.Tends → c'.Tends := .imp (hc _) (.imp (hc _) (hc _))
  cases h
  case errand h            => cases h
  case returning t htG hs  => exact .returning (hc _ hs) htG
  case tidying ho h =>
    rw [List.forall_mem_cons] at h
    exact .tidying ho <| List.forall_mem_cons.mpr ⟨ht h.left, h.right⟩
  case opening ho h =>
    rcases h.head with ⟨ha, h⟩ | ⟨⟨t, hs, ha⟩, h⟩ | ⟨h, _⟩
    · exact .opening ho <| .cons (ht ha) h
    · exact .opening ho <| .filling <| .cons ⟨t, hc _ hs, ha⟩ h
    · simp at h

-- A task at a lane is about the lane or about a ticket, and no lane is cleared after the latter.
theorem ask (h : Agenda lane n G o (.ask l c :: todo)) :
    c.Tends ∨ ∃ t, c.Serves (.push t) ∧ lane t.handle = l ∧ t.generation = G ∧
      ∀ l', .ask l' (.entering .clear) ∉ todo := by
  cases h
  case errand h           => cases h
  case returning t ht hs  => exact .inr ⟨t, hs, rfl, ht, by simp⟩
  case tidying _ h        => exact .inl (List.forall_mem_cons.mp h).left
  case opening ho h =>
    rcases h.head with ⟨ha, _⟩ | ⟨⟨t, hs, hl, ht⟩, h⟩ | ⟨h, _⟩
    · exact .inl ha
    · exact .inr ⟨t, hs, hl, ht, h.clear_not_mem⟩
    · simp at h

theorem advance_not_mem (h : Agenda lane n G o (.ask l c :: todo)) : .advance ∉ todo := by
  cases h
  case errand h     => cases h
  case returning    => simp
  case tidying _ h  => exact fun hm => (List.forall_mem_cons.mp h).right _ hm
  case opening ho h => exact fun hm => h.advance_not_mem (List.mem_cons_of_mem _ hm)

theorem cargo_notifying {owed : List Wake} {a : Answer Ticket}
    (h : Agenda lane n G o (.ask l (.notifying owed a) :: todo)) : a.cargo = [] := by
  rcases h.ask with hc | ⟨t, hc, _⟩
  · exact hc.cargo
  · cases a <;> first | rfl | exact hc.elim

theorem check (h : Agenda lane n G o (.check :: todo)) : todo = [] := by
  cases h
  case errand h     => cases h; rfl
  case tidying _ h  => simp [Task.Tends] at h
  case opening _ h  => simpa [Task.Tends, Task.Fills] using h.head

theorem compare {t : Ticket} (h : Agenda lane n G o (.compare l t :: todo)) :
    l = lane t.handle ∧ todo = [] := by
  cases h
  case errand h     => cases h; exact ⟨rfl, rfl⟩
  case tidying _ h  => simp [Task.Tends] at h
  case opening _ h  => simpa [Task.Tends, Task.Fills] using h.head

theorem assign {h' index : ℕ} (h : Agenda lane n G o (.assign h' index :: todo)) :
    Agenda lane n G o todo := by
  cases h
  case errand h     => cases h
  case tidying _ h  => simp [Task.Tends] at h
  case opening ho h =>
    have h : Filling lane G todo := by simpa [Task.Tends, Task.Fills] using h.head
    exact .opening ho (.filling h)

theorem «open» (h : Agenda lane n G o (.open :: todo)) : todo = [] := by
  cases h
  case errand h     => cases h
  case tidying _ h  => simp [Task.Tends] at h
  case opening _ h  => simpa [Task.Tends, Task.Fills] using h.head

theorem shut (h : Agenda lane n G o (.shut :: todo)) :
    ∃ tend, todo = .advance :: tend ∧ (∀ a ∈ tend, a.Tends) ∧
      ∀ l < n, .ask l (.entering .clear) ∈ tend := by
  cases h
  case errand h =>
    cases h
    case shut ht hc => exact ⟨_, rfl, ht, hc⟩
  case tidying _ h  => simp [Task.Tends] at h
  case opening _ h  => simpa [Task.Tends, Task.Fills] using h.head

theorem advance (h : Agenda lane n G o (.advance :: todo)) :
    o = false ∧ (∀ a ∈ todo, a.Tends) ∧ ∀ l < n, .ask l (.entering .clear) ∈ todo := by
  cases h
  case errand h             => cases h
  case advancing ho ht hc   => exact ⟨ho, ht, hc⟩
  case tidying _ h          => simp [Task.Tends] at h
  case opening _ h          => simpa [Task.Tends, Task.Fills] using h.head

end Agenda

end Gate
end Inference
