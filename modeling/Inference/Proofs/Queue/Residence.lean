import Inference.Proofs.Queue.Spilling
import Mathlib.Data.List.Basic

/-!
How many items a queue keeps in memory. An item is written to disk only when a newer one is pushed,
so the newest item is always in memory. An item that is left in memory at that moment is among the
first items of the queue, fewer than the threshold, and from there it only moves forward; any other
item is read into memory only when it has become the oldest one.
-/

namespace Inference.Backlog

variable {α ρ : Type} {k : Medium α ρ} {b : Backlog α ρ} {l : List α} {n n' : ℕ}
variable {q : Request α} {x : α} {turns : List (Medium α ρ × Request α)}

theorem spillLast_concat (k : Medium α ρ) (es : List (Stored α ρ)) (e : Stored α ρ) :
    spillLast k (es ++ [e]) = es ++ [e.spill k] := by
  induction es
  case nil => rfl
  case cons d es hi =>
    cases es
    case nil  => rfl
    case cons => exact congrArg (d :: ·) hi

theorem length_spillLast (k : Medium α ρ) (es : List (Stored α ρ)) :
    (spillLast k es).length = es.length := by
  rcases es.eq_nil_or_concat with rfl | ⟨es, e, rfl⟩
  · rfl
  · simp [spillLast_concat]

theorem front_entries (k : Medium α ρ) (b : Backlog α ρ) : (b.front k).2.entries = b.entries ∨
    ∃ e es x, b.entries = e :: es ∧ e.item k = .ok x ∧
      (b.front k).2.entries = .memory x :: es := by
  rcases b with ⟨_ | ⟨e, es⟩, n⟩
  · exact .inl rfl
  · simp only [front]
    cases he : e.item k
    case error => exact .inl rfl
    case ok x  => exact .inr ⟨e, es, x, rfl, he, rfl⟩

theorem front_threshold (k : Medium α ρ) (b : Backlog α ρ) :
    (b.front k).2.threshold = b.threshold := by
  rw [front]
  split
  case h_1 => rfl
  case h_2 => split <;> rfl

-- The newest item is in memory, and it is that of the queue `l`, which keeps all its items there.
structure Crowned (b : Backlog α ρ) (l : List α) : Prop where
  length : b.entries.length = l.length
  newest : b.entries.getLast? = l.getLast?.map .memory

namespace Crowned

theorem back (h : b.Crowned l) (k : Medium α ρ) : b.back k = (.ok l.getLast?, b) := by
  rw [Backlog.back, h.newest]
  cases hl : l.getLast?
  case none => rfl
  case some x =>
    have he : b.entries.dropLast ++ [.memory x] = b.entries :=
      List.dropLast_append_getLast? _ (by rw [h.newest, hl]; rfl)
    simp only [Option.map_some, Stored.item, he]

theorem push (h : b.Crowned l) (k : Medium α ρ) (x : α) : (b.push k x).Crowned (l ++ [x]) where
  length := by
    simp only [Backlog.push, List.length_append, List.length_singleton]
    split
    · rw [length_spillLast, h.length]
    · rw [h.length]
  newest := by simp [Backlog.push]

theorem pop (h : b.Crowned l) (k : Medium α ρ) : (b.pop k).2.Crowned l.tail where
  length := by simp [pop_snd, h.length]
  newest := by
    rw [pop_snd, List.getLast?_tail, List.getLast?_tail, h.length, h.newest]
    split <;> rfl

theorem front (h : b.Crowned l) (k : Medium α ρ) : (b.front k).2.Crowned l := by
  rcases front_entries k b with hb | ⟨e, es, x, he, hx, hb⟩
  · exact ⟨hb ▸ h.length, hb ▸ h.newest⟩
  · refine ⟨?length, ?newest⟩
    case length => simpa [hb, he] using h.length
    case newest =>
      have hn := h.newest
      rw [he] at hn
      cases es
      case cons => simpa [hb] using hn
      case nil =>
        -- the oldest item is the newest one too, so it is in memory already
        obtain ⟨y, hy, hm⟩ := Option.map_eq_some_iff.mp hn.symm
        subst hm
        cases hx
        rw [hb, hy]
        rfl

theorem serve (h : b.Crowned l) (k : Medium α ρ) (q : Request α) :
    (b.serve k q).2.Crowned (serveInMemory q l).2 := by
  cases q
  case push x         => exact h.push k x
  case pop            => exact h.pop k
  case front          => exact h.front k
  case back           => exact (congrArg Prod.snd (h.back k)).symm ▸ h
  case clear          => exact ⟨rfl, rfl⟩
  case setThreshold n => exact ⟨h.length, h.newest⟩
  case size           => exact h
  case isEmpty        => exact h

end Crowned

theorem crowned_run (n : ℕ) (turns : List (Medium α ρ × Request α)) :
    (turns.mapM (fun t => serve t.1 t.2) (empty n)).2.Crowned
      (turns.mapM (fun t => serveInMemory t.2) []).2 :=
  Serving.related ⟨rfl, rfl⟩ fun t _ _ _ h => h.serve t.1 t.2

-- Of all items but the newest, those behind the first `n - 1` are on disk.
structure Settled (n : ℕ) (b : Backlog α ρ) : Prop where
  threshold : b.threshold ≤ n
  onDisk    : ∀ e ∈ b.entries.dropLast.drop (n - 1), e.isOnDisk

-- A request writes only if it is a push from the threshold on, and then the newest item. That write
-- does not fail.
def Written (k : Medium α ρ) (q : Request α) (b : Backlog α ρ) : Prop :=
  ∀ x y, q = .push x → b.threshold ≤ b.size → b.entries.getLast? = some (.memory y) →
    ∃ r, k.write y = .ok r

theorem Written.isOnDisk_spill {e : Stored α ρ} (h : Written k (.push x) b)
    (ht : b.threshold ≤ b.size) (he : b.entries.getLast? = some e) : (e.spill k).isOnDisk := by
  cases e
  case disk => rfl
  case memory y =>
    have ⟨r, hr⟩ := h x y rfl ht he
    rw [Stored.spill, hr]
    rfl

-- No write fails in the course of the requests.
def AllWritten : List (Medium α ρ × Request α) → Backlog α ρ → Prop
  | [], _      => True
  | t :: ts, b => Written t.1 t.2 b ∧ AllWritten ts (b.serve t.1 t.2).2

-- The greatest threshold in force so far.
def Request.raise : ℕ → Request α → ℕ
  | n, .setThreshold m => max n m
  | n, _               => n

def highest (n : ℕ) (qs : List (Request α)) : ℕ := qs.foldl Request.raise n

-- All but the last one of a list, and that one.
theorem countP_le_countP_dropLast {β : Type} (p : β → Bool) (es : List β) :
    es.countP p ≤ es.dropLast.countP p + 1 := by
  rcases es.eq_nil_or_concat' with rfl | ⟨es, e, rfl⟩
  · simp
  · rw [List.dropLast_concat, List.countP_append]
    exact Nat.add_le_add_left (List.countP_le_length (l := [e])) _

theorem size_eq (b : Backlog α ρ) : b.size = b.onDisk + b.entries.countP (!·.isOnDisk) := by
  simpa [size, Backlog.onDisk] using
    List.length_eq_countP_add_countP (·.isOnDisk) (l := b.entries)

namespace Settled

theorem empty (h : n ≤ n') : (empty n : Backlog α ρ).Settled n' := ⟨h, by simp [Backlog.empty]⟩

theorem mono (h : b.Settled n) (hn : n ≤ n') : b.Settled n' :=
  ⟨Nat.le_trans h.threshold hn, fun e he =>
    h.onDisk e (List.drop_subset_drop_left _ (Nat.sub_le_sub_right hn 1) he)⟩

-- In memory are the newest item, and at most `n - 1` items at the other end.
theorem inMemory_le (h : b.Settled n) (hn : 0 < n) : b.size - b.onDisk ≤ n := by
  have ht : (b.entries.dropLast.take (n - 1)).countP (!·.isOnDisk) ≤ n - 1 :=
    Nat.le_trans List.countP_le_length (List.length_take_le ..)
  have hd : (b.entries.dropLast.drop (n - 1)).countP (!·.isOnDisk) = 0 :=
    List.countP_eq_zero.mpr fun e he => by simp [h.onDisk e he]
  have hl := countP_le_countP_dropLast (!·.isOnDisk) b.entries
  rw [← List.take_append_drop (n - 1) b.entries.dropLast, List.countP_append, hd] at hl
  rw [size_eq]
  omega

theorem pop (h : b.Settled n) (k : Medium α ρ) : (b.pop k).2.Settled n := by
  rw [pop_snd]
  refine ⟨h.threshold, fun e he => h.onDisk e ?_⟩
  rw [← List.tail_dropLast, List.drop_tail] at he
  exact List.drop_subset_drop_left _ (Nat.le_succ _) he

-- Only the oldest item is read into memory, and that is among the first `n - 1`.
theorem front (h : b.Settled n) (hn : 2 ≤ n) (k : Medium α ρ) : (b.front k).2.Settled n := by
  have hd (e : Stored α ρ) (es) : (e :: es).dropLast.drop (n - 1) = es.dropLast.drop (n - 2) := by
    have hn : n - 1 = n - 2 + 1 := by omega
    rw [hn, ← List.drop_tail, List.tail_dropLast, List.tail_cons]
  refine ⟨?threshold, ?onDisk⟩
  case threshold => exact (front_threshold k b).symm ▸ h.threshold
  case onDisk =>
    rcases front_entries k b with hb | ⟨e, es, x, he, -, hb⟩
    · exact hb ▸ h.onDisk
    · have ho := h.onDisk
      rw [he, hd] at ho
      rwa [hb, hd]

theorem push (h : b.Settled n) (hw : Written k (.push x) b) : (b.push k x).Settled n := by
  refine ⟨h.threshold, ?_⟩
  simp only [Backlog.push, List.dropLast_concat]
  split
  case isTrue ht =>
    rcases b.entries.eq_nil_or_concat' with he | ⟨es, e, he⟩
    · simp [he, spillLast]
    · have ho := h.onDisk
      rw [he, List.dropLast_concat] at ho
      rw [he, spillLast_concat, List.drop_append]
      refine List.forall_mem_append.mpr ⟨ho, fun d hd => ?_⟩
      obtain rfl := List.mem_singleton.mp (List.mem_of_mem_drop hd)
      exact hw.isOnDisk_spill ht (by simp [he])
  case isFalse ht =>
    have hs : b.entries.length < n := Nat.lt_of_lt_of_le (Nat.lt_of_not_le ht) h.threshold
    simp [List.drop_eq_nil_of_le (Nat.le_sub_one_of_lt hs)]

-- A request keeps the items settled, below its own threshold or the greatest one before it.
theorem serve (h : b.Settled (max 2 n)) (hb : b.Crowned l) (hw : Written k q b) :
    (b.serve k q).2.Settled (max 2 (q.raise n)) := by
  cases q
  case push x         => exact h.push hw
  case pop            => exact h.pop k
  case front          => exact h.front (Nat.le_max_left ..) k
  case back           => exact (congrArg Prod.snd (hb.back k)).symm ▸ h
  case clear          => exact ⟨h.threshold, by simp [Backlog.serve, clear]⟩
  case size           => exact h
  case isEmpty        => exact h
  case setThreshold m =>
    have hm : b.Settled (max 2 (max n m)) := h.mono (by omega)
    exact ⟨Nat.le_trans (Nat.le_max_right n m) (Nat.le_max_right ..), hm.onDisk⟩

theorem run (h : b.Settled (max 2 n)) (hb : b.Crowned l) (hw : AllWritten turns b) :
    (turns.mapM (fun t => Backlog.serve t.1 t.2) b).2.Settled
      (max 2 (highest n (turns.map (·.2)))) := by
  induction turns generalizing b l n
  case nil => exact h
  case cons t turns hi =>
    rw [Serving.mapM_cons]
    exact hi (h.serve hb hw.left) (hb.serve t.1 t.2) hw.right

end Settled

-- The newest item is always in memory, so a look at it reads nothing and never fails. Where no
-- write fails, the items in memory are never more than two and the greatest threshold so far.
theorem memory_bounded (n : ℕ) (turns : List (Medium α ρ × Request α)) :
    let b := (turns.mapM (fun t => serve t.1 t.2) (empty n)).2
    let l := (turns.mapM (fun t => serveInMemory t.2) []).2
    (b.entries.getLast? = l.getLast?.map .memory ∧ ∀ k, b.back k = (.ok l.getLast?, b)) ∧
      (AllWritten turns (empty n) → b.size - b.onDisk ≤ max 2 (highest n (turns.map (·.2)))) := by
  intro b l
  have hb : b.Crowned l := crowned_run n turns
  refine ⟨⟨hb.newest, hb.back⟩, fun hw => ?_⟩
  have he : (empty n : Backlog α ρ).Settled (max 2 n) := .empty (Nat.le_max_right ..)
  exact (he.run (l := []) ⟨rfl, rfl⟩ hw).inMemory_le (by omega)

theorem bytewise_written {x : UInt8} (q : Request UInt8) {b : Backlog UInt8 Bytes}
    (h : b.entries.getLast? = some (.memory x)) (hx : x ≠ 0) : Written bytewise q b := by
  intro _ y _ _ hy
  obtain rfl : x = y := by simpa using h.symm.trans hy
  exact ⟨[x], if_neg hx⟩

-- The second byte is pushed while the threshold is 1, so the first one is written, and read again
-- by the look at it. A third one stays beside them under the greater threshold, until there is a
-- fourth.
def fourLooked : List (Medium UInt8 Bytes × Request UInt8) :=
  [.push 1, .push 2, .front, .setThreshold 3, .push 3, .setThreshold 0, .push 4].map (bytewise, ·)

-- As many bytes are in memory as the greatest threshold says, which is no longer in force.
theorem lowered_threshold_reached :
    let b : Backlog UInt8 Bytes := ⟨[.memory 1, .memory 2, .disk [3], .memory 4], 0⟩
    AllWritten fourLooked (empty 1) ∧
      (fourLooked.mapM (fun t => serve t.1 t.2) (empty 1)).2 = b ∧
      highest 1 (fourLooked.map (·.2)) = 3 ∧ b.size - b.onDisk = 3 ∧ b.size - b.onDisk ≤ max 2 3 ∧
      b.back unreadable = (.ok (some 4), b) := by
  intro b
  have hw : AllWritten fourLooked (empty 1) :=
    ⟨nofun, bytewise_written _ rfl (by decide), nofun, nofun, bytewise_written _ rfl (by decide),
      nofun, bytewise_written _ rfl (by decide), trivial⟩
  have ⟨⟨_, hback⟩, hmemory⟩ := memory_bounded 1 fourLooked
  exact ⟨hw, rfl, rfl, rfl, hmemory hw, hback unreadable⟩

end Inference.Backlog
