import Inference.Bytes
import Inference.Proofs.Serving
import Inference.Queue.Backlog
import Mathlib.Data.List.Basic

/-!
The callers of a queue do not see which of its items are on disk. Read through the medium, the
entries give the items of a queue that stays in memory, and every request keeps it so: a write that
fails leaves the item in memory, and a read that fails leaves all other entries as they are.
-/

namespace Inference

namespace Medium

variable {α ρ : Type}

-- What is read is what was written.
def Faithful (m : Medium α ρ) : Prop := ∀ x r, m.write x = .ok r → m.read r = .ok x

-- The medium `m` at a moment when it may fail.
structure Falters (k m : Medium α ρ) : Prop where
  write : ∀ x, k.write x = m.write x ∨ ∃ e, k.write x = .error e
  read  : ∀ r, k.read r = m.read r ∨ ∃ e, k.read r = .error e

end Medium

namespace Stored

variable {α ρ : Type} {m k : Medium α ρ} {e : Stored α ρ} {x : α}

theorem item_spill (hm : m.Faithful) (hk : k.Falters m) (e : Stored α ρ) :
    (e.spill k).item m = e.item m := by
  cases e
  case disk => rfl
  case memory x =>
    rw [spill]
    split
    case h_2 => rfl
    case h_1 r hw =>
      rcases hk.write x with h | ⟨_, h⟩
      · exact hm x r (h ▸ hw)
      · cases h ▸ hw

-- An item is read, unless it is on disk and its record cannot be read.
theorem item_of_falters (hk : k.Falters m) (h : e.item m = .ok x) : e.item k = .ok x ∨
    ∃ r f, m.read r = .ok x ∧ k.read r = .error f ∧ e.item k = .error f := by
  cases e
  case memory => exact .inl h
  case disk r =>
    rcases hk.read r with hr | ⟨f, hr⟩
    · exact .inl (hr.trans h)
    · exact .inr ⟨r, f, h, hr, hr⟩

theorem item_eq_of_falters (hk : k.Falters m) (h : e.item k = .ok x) : e.item m = .ok x := by
  cases e
  case memory => exact h
  case disk r =>
    rcases hk.read r with hr | ⟨_, hr⟩
    · exact hr.symm.trans h
    · cases hr.symm.trans h

end Stored

namespace Backlog

variable {α ρ : Type} {m k : Medium α ρ} {b : Backlog α ρ} {l : List α}

-- What a queue is asked for.
inductive Request (α : Type) where
  | push (x : α)
  | pop
  | front
  | back
  | clear
  | setThreshold (n : ℕ)
  | size
  | isEmpty

inductive Answer (α : Type) where
  | done
  | item (r : Except Error (Option α))
  | size (n : ℕ)
  | isEmpty (yes : Bool)

def serve (m : Medium α ρ) : Request α → StateM (Backlog α ρ) (Answer α)
  | .push x, b         => (.done, b.push m x)
  | .pop, b            => ((b.pop m).map .item id)
  | .front, b          => ((b.front m).map .item id)
  | .back, b           => ((b.back m).map .item id)
  | .clear, b          => (.done, b.clear)
  | .setThreshold n, b => (.done, b.setThreshold n)
  | .size, b           => (.size b.size, b)
  | .isEmpty, b        => (.isEmpty b.isEmpty, b)

-- The same of a queue that keeps its items in memory, the oldest one first.
def serveInMemory : Request α → StateM (List α) (Answer α)
  | .push x, l         => (.done, l ++ [x])
  | .pop, l            => (.item (.ok l.head?), l.tail)
  | .front, l          => (.item (.ok l.head?), l)
  | .back, l           => (.item (.ok l.getLast?), l)
  | .clear, _          => (.done, [])
  | .setThreshold _, l => (.done, l)
  | .size, l           => (.size l.length, l)
  | .isEmpty, l        => (.isEmpty l.isEmpty, l)

-- The answer is the same, or in place of an item it is the error with which its record is read.
inductive Answer.Follows (m k : Medium α ρ) (a : Answer α) : Answer α → Prop
  | same : Follows m k a a
  | unread {x r f} : a = .item (.error f) → m.read r = .ok x → k.read r = .error f →
      Follows m k a (.item (.ok (some x)))

theorem Answer.Follows.eq {a a' : Answer α} (h : a.Follows m k a') (hr : k.read = m.read) :
    a = a' := by
  cases h
  case same => rfl
  case unread _ hm hk => cases (hr ▸ hk).symm.trans hm

-- The item of an entry, if there is an entry.
def reading (k : Medium α ρ) : Option (Stored α ρ) → Except Error (Option α)
  | none   => .ok none
  | some e => (e.item k).map some

theorem follows_reading {o : Option (Stored α ρ)} {o' : Option α} (hk : k.Falters m)
    (h : o.map (·.item m) = o'.map .ok) :
    (Answer.item (reading k o)).Follows m k (.item (.ok o')) := by
  cases o <;> cases o' <;> simp only [Option.map_some, Option.map_none, reduceCtorEq] at h
  case none.none => exact .same
  case some.some e x =>
    rcases Stored.item_of_falters hk (Option.some.inj h) with hi | ⟨r, f, hm, hr, hi⟩
    · rw [reading, hi]
      exact .same
    · exact .unread (by rw [reading, hi]; rfl) hm hr

theorem front_fst (k : Medium α ρ) (b : Backlog α ρ) :
    (b.front k).1 = reading k b.entries.head? := by
  rcases b with ⟨_ | ⟨e, es⟩, n⟩
  · rfl
  · simp only [front, List.head?_cons, reading]
    cases e.item k <;> rfl

theorem back_fst (k : Medium α ρ) (b : Backlog α ρ) :
    (b.back k).1 = reading k b.entries.getLast? := by
  rw [back]
  cases b.entries.getLast?
  case none => rfl
  case some e =>
    simp only [reading]
    cases e.item k <;> rfl

theorem pop_fst (k : Medium α ρ) (b : Backlog α ρ) :
    (b.pop k).1 = reading k b.entries.head? := by
  rcases b with ⟨_ | _, _⟩ <;> rfl

theorem pop_snd (k : Medium α ρ) (b : Backlog α ρ) :
    (b.pop k).2 = { b with entries := b.entries.tail } := by
  rcases b with ⟨_ | _, _⟩ <;> rfl

theorem front_snd_of_error {f : Error} (h : (b.front k).1 = .error f) : (b.front k).2 = b := by
  rcases b with ⟨_ | ⟨e, es⟩, n⟩
  · rfl
  · simp only [front] at h ⊢
    cases he : e.item k
    case error => rfl
    case ok    => simp [he] at h

theorem back_snd_of_error {f : Error} (h : (b.back k).1 = .error f) : (b.back k).2 = b := by
  rw [back] at h ⊢
  split
  case h_1 => rfl
  case h_2 e he =>
    cases hi : e.item k
    case error => rfl
    case ok    => simp [he, hi] at h

-- Read through the medium, the entries are the items.
def Shows (m : Medium α ρ) (b : Backlog α ρ) (l : List α) : Prop :=
  b.entries.map (·.item m) = l.map .ok

theorem shows_empty (m : Medium α ρ) (n : ℕ) : (empty n).Shows m [] := rfl

theorem items_spillLast (hm : m.Faithful) (hk : k.Falters m) (es : List (Stored α ρ)) :
    (spillLast k es).map (·.item m) = es.map (·.item m) := by
  induction es using spillLast.induct
  case case1           => rfl
  case case2 e         => simp [spillLast, Stored.item_spill hm hk]
  case case3 e es h hi => simp [spillLast, hi]

theorem items_front (hk : k.Falters m) (b : Backlog α ρ) :
    (b.front k).2.entries.map (·.item m) = b.entries.map (·.item m) := by
  rcases b with ⟨_ | ⟨e, es⟩, n⟩
  · rfl
  · simp only [front]
    cases he : e.item k
    case error => rfl
    case ok x  => exact congrArg (· :: _) (Stored.item_eq_of_falters hk he).symm

theorem items_back (hk : k.Falters m) (b : Backlog α ρ) :
    (b.back k).2.entries.map (·.item m) = b.entries.map (·.item m) := by
  rw [back]
  split
  case h_1 => rfl
  case h_2 e he =>
    cases hi : e.item k
    case error => rfl
    case ok x =>
      conv => rhs; rw [← List.dropLast_append_getLast? e he]
      simp only [List.map_append, List.map_cons, List.map_nil, Stored.item_eq_of_falters hk hi]
      rfl

namespace Shows

theorem push (h : b.Shows m l) (hm : m.Faithful) (hk : k.Falters m) (x : α) :
    (b.push k x).Shows m (l ++ [x]) := by
  have he : (if b.threshold ≤ b.size then spillLast k b.entries else b.entries).map (·.item m) =
      l.map .ok := by
    split
    · exact (items_spillLast hm hk b.entries).trans h
    · exact h
  simp only [Shows, Backlog.push, List.map_append, he]
  rfl

theorem tail (h : b.Shows m l) : (b.pop k).2.Shows m l.tail := by
  simpa [Shows, pop_snd] using congrArg List.tail h

theorem length (h : b.Shows m l) : b.entries.length = l.length := by
  simpa using congrArg List.length h

theorem isEmpty (h : b.Shows m l) : b.entries.isEmpty = l.isEmpty := by
  simpa using congrArg List.isEmpty h

theorem head? (h : b.Shows m l) : b.entries.head?.map (·.item m) = l.head?.map .ok := by
  simpa using congrArg List.head? h

theorem getLast? (h : b.Shows m l) :
    b.entries.getLast?.map (·.item m) = l.getLast?.map .ok := by
  simpa using congrArg List.getLast? h

-- A request keeps the queues together, whatever fails.
theorem serve (h : b.Shows m l) (hm : m.Faithful) (hk : k.Falters m) (q : Request α) :
    (b.serve k q).2.Shows m (serveInMemory q l).2 := by
  cases q
  case push x         => exact h.push hm hk x
  case pop            => exact h.tail
  case front          => exact (items_front hk b).trans h
  case back           => exact (items_back hk b).trans h
  case clear          => rfl
  case setThreshold n => exact h
  case size           => exact h
  case isEmpty        => exact h

theorem follows (h : b.Shows m l) (hk : k.Falters m) (q : Request α) :
    (b.serve k q).1.Follows m k (serveInMemory q l).1 := by
  cases q
  case push | clear | setThreshold => exact .same
  case pop =>
    change (Answer.item (b.pop k).1).Follows m k _
    exact pop_fst k b ▸ follows_reading hk h.head?
  case front =>
    change (Answer.item (b.front k).1).Follows m k _
    exact front_fst k b ▸ follows_reading hk h.head?
  case back =>
    change (Answer.item (b.back k).1).Follows m k _
    exact back_fst k b ▸ follows_reading hk h.getLast?
  case size =>
    change (Answer.size b.entries.length).Follows m k _
    exact h.length ▸ .same
  case isEmpty =>
    change (Answer.isEmpty b.entries.isEmpty).Follows m k _
    exact h.isEmpty ▸ .same

end Shows

-- A queue whose writes fail now and then answers as one that keeps its items in memory. If reads
-- fail too, then the only other answer is the error of the read; a pop has removed the item
-- then, and a look at it has changed nothing.
theorem spilling_unseen (hm : m.Faithful) (n : ℕ) (turns : List (Medium α ρ × Request α))
    (ht : ∀ t ∈ turns, t.1.Falters m) :
    ((∀ t ∈ turns, t.1.read = m.read) →
      (turns.mapM (fun t => serve t.1 t.2) (empty n)).1 =
        (turns.mapM (fun t => serveInMemory t.2) []).1) ∧
    ∀ k b l, k.Falters m → (turns.mapM (fun t => serve t.1 t.2) (empty n)).2 = b →
      (turns.mapM (fun t => serveInMemory t.2) []).2 = l →
        (∀ q, (b.serve k q).1.Follows m k (serveInMemory q l).1) ∧
        (∀ f, (b.pop k).1 = .error f → (b.pop k).2 = { b with entries := b.entries.tail }) ∧
        (∀ f, (b.front k).1 = .error f → (b.front k).2 = b) ∧
        ∀ f, (b.back k).1 = .error f → (b.back k).2 = b := by
  have hs : ∀ t ∈ turns, ∀ (b : Backlog α ρ) l, b.Shows m l →
      (b.serve t.1 t.2).2.Shows m (serveInMemory t.2 l).2 :=
    fun t h b l hb => hb.serve hm (ht t h) t.2
  refine ⟨fun hr => ?_, fun k b l hk hb hl => ⟨fun q => ?_, fun _ _ => pop_snd k b,
    fun _ => front_snd_of_error, fun _ => back_snd_of_error⟩⟩
  case refine_1 =>
    exact Serving.answers_eq (shows_empty m n) hs fun t h b l hb =>
      (hb.follows (ht t h) t.2).eq (hr t h)
  case refine_2 =>
    have h : b.Shows m l := hb ▸ hl ▸ Serving.related (shows_empty m n) hs
    exact h.follows hk q

-- A byte is its own record, but for zero, which has none.
def bytewise : Medium UInt8 Bytes where
  write x := if x = 0 then .error .io else .ok [x]
  read bs := (bs.head?.map .ok).getD (.error .io)

def unwritable : Medium UInt8 Bytes := { bytewise with write := fun _ => .error .io }

def unreadable : Medium UInt8 Bytes := { bytewise with read := fun _ => .error .io }

-- The second byte is kept in memory, as it cannot be written when it is its turn.
def fourBytes : List (Medium UInt8 Bytes × Request UInt8) :=
  [(bytewise, .push 1), (bytewise, .push 2), (unwritable, .push 3), (bytewise, .push 4)]

theorem unreadable_byte_popped :
    let b : Backlog UInt8 Bytes := ⟨[.disk [1], .memory 2, .disk [3], .memory 4], 0⟩
    bytewise.Faithful ∧ (∀ t ∈ fourBytes, t.1.Falters bytewise ∧ t.1.read = bytewise.read) ∧
      unreadable.Falters bytewise ∧
      (fourBytes.mapM (fun t => serve t.1 t.2) (empty 0)).1 =
        (fourBytes.mapM (fun t => serveInMemory t.2) []).1 ∧
      (fourBytes.mapM (fun t => serve t.1 t.2) (empty 0)).2 = b ∧
      (fourBytes.mapM (fun t => serveInMemory t.2) []).2 = [1, 2, 3, 4] ∧
      (b.serve unreadable .pop).1.Follows bytewise unreadable (.item (.ok (some 1))) ∧
      (b.pop unreadable).1 = .error .io ∧
      (b.pop unreadable).2 = ⟨[.memory 2, .disk [3], .memory 4], 0⟩ := by
  intro b
  have hm : bytewise.Faithful := by
    intro x r h
    simp only [bytewise] at h ⊢
    split at h <;> cases h
    rfl
  have hk : unreadable.Falters bytewise := ⟨fun _ => .inl rfl, fun _ => .inr ⟨_, rfl⟩⟩
  have hb : bytewise.Falters bytewise := ⟨fun _ => .inl rfl, fun _ => .inl rfl⟩
  have hu : unwritable.Falters bytewise := ⟨fun _ => .inr ⟨_, rfl⟩, fun _ => .inl rfl⟩
  have hr : unwritable.read = bytewise.read := rfl
  have ht : ∀ t ∈ fourBytes, t.1.Falters bytewise ∧ t.1.read = bytewise.read := by
    simp [fourBytes, hb, hu, hr]
  have h := spilling_unseen hm 0 fourBytes fun t h => (ht t h).left
  have hp := h.right unreadable b [1, 2, 3, 4] hk rfl rfl
  exact ⟨hm, ht, hk, h.left fun t h => (ht t h).right, rfl, rfl, hp.left .pop, rfl,
    hp.right.left .io rfl⟩

end Backlog
end Inference
