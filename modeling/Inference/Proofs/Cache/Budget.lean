import Inference.Proofs.Cache
import Inference.Proofs.Serving
import Inference.Proofs.Tally

/-!
The books of a cache. The total is kept beside the entries and is changed wherever they are, yet it
is always what the entries cost together. So no cost is ever taken from a smaller total, and driving
out entries ends with enough room at the latest when none is left.
-/

namespace Inference

namespace Buffers

-- The bytes of all buffers and of their names.
def bytes (b : Buffers) : ℕ := tally (fun e => e.2.length + e.1.utf8ByteSize) b.entries

theorem cost_eq_tally (b : Buffers) :
    b.cost = tally (fun e => (e.2.length + e.1.utf8ByteSize) / 1000) b.entries := by
  rw [cost]
  induction b.entries
  case nil     => rfl
  case cons hi => rw [List.foldr_cons, hi, tally_cons]

-- What is lost in the rounding of a cost is less than a thousand bytes for each buffer.
theorem bytes_le (b : Buffers) : b.bytes ≤ 1000 * b.cost + 999 * b.size := by
  rw [bytes, cost_eq_tally, Dict.size, ← tally_one]
  apply tally_le_add
  intro e _
  have := Nat.div_add_mod (e.2.length + e.1.utf8ByteSize) 1000
  omega

end Buffers

namespace Cache

inductive Operation where
  | add (key : String) (b : Buffers)
  | fetch (key : String)
  | remove (key : String)
  | contains (key : String)
  | clear

inductive Answer where
  | flag (b : Bool)
  | found (b : Option Buffers)
  | done
deriving DecidableEq

def Operation.serve : Operation → StateM Cache Answer
  | add key b, c    => (.flag (c.add key b).1, (c.add key b).2)
  | fetch key, c    => (.found (c.fetch key).1, (c.fetch key).2)
  | remove key, c   => (.flag (c.remove key).1, (c.remove key).2)
  | contains key, c => (.flag (c.contains key), c)
  | clear, c        => (.done, c.clear)

-- Driving out entries one by one. There is no step that takes a cost from a smaller total, and none
-- that ends without enough room.
inductive Evicts (budget cost : ℕ) : List CacheEntry → ℕ → List CacheEntry → ℕ → Prop
  | enough {l total} : total + cost ≤ budget → Evicts budget cost l total l total
  | drop {e l total kept rest} : budget < total + cost → e.cost ≤ total →
      Evicts budget cost l (total - e.cost) kept rest → Evicts budget cost (e :: l) total kept rest

structure Balanced (c : Cache) : Prop where
  distinct : (c.entries.map (·.key)).Nodup
  priced   : ∀ e ∈ c.entries, e.cost = e.buffers.cost
  total    : c.total = tally (·.cost) c.entries
  within   : c.total ≤ c.budget

variable {c : Cache} {key : String} {b : Buffers} {e : CacheEntry} {l kept : List CacheEntry}
  {budget cost sum rest : ℕ}

theorem evicts_evict (h : cost ≤ budget) :
    Evicts budget cost l (tally (·.cost) l)
      (evict budget cost l (tally (·.cost) l)).1 (evict budget cost l (tally (·.cost) l)).2 := by
  induction l
  case nil => exact .enough (by simpa)
  case cons e l hi =>
    rw [evict, tally_cons]
    split
    case isTrue hb =>
      have hs : e.cost + tally (·.cost) l - e.cost = tally (·.cost) l := Nat.add_sub_cancel_left ..
      refine .drop hb (Nat.le_add_right ..) ?_
      rw [hs]
      exact hi
    case isFalse hb => exact .enough (Nat.not_lt.mp hb)

theorem Evicts.room (h : Evicts budget cost l sum kept rest) : rest + cost ≤ budget := by
  induction h
  case enough h  => exact h
  case drop hi   => exact hi

theorem Evicts.rest_eq (h : Evicts budget cost l sum kept rest) (ht : sum = tally (·.cost) l) :
    rest = tally (·.cost) kept := by
  induction h
  case enough => exact ht
  case drop hi =>
    rw [tally_cons] at ht
    exact hi (by omega)

-- An entry that is taken out and the others are all entries.
theorem perm_filter (hn : (l.map (·.key)).Nodup) (he : l.find? (·.key = key) = some e) :
    (e :: l.filter (·.key ≠ key)).Perm l := by
  induction l
  case nil => simp at he
  case cons a l hi =>
    rw [List.map_cons, List.nodup_cons] at hn
    by_cases ha : a.key = key
    case neg =>
      simp only [List.find?_cons, ha, decide_false] at he
      simp only [List.filter_cons, ne_eq, ha, not_false_eq_true, decide_true, if_true]
      exact (List.Perm.swap ..).trans <| (hi hn.right he).cons a
    case pos =>
      simp only [List.find?_cons, ha, decide_true, Option.some.injEq] at he
      have hl : l.filter (·.key ≠ key) = l := by
        rw [List.filter_eq_self]
        intro x hx
        have : x.key ≠ a.key := fun h => hn.left <| h ▸ List.mem_map_of_mem hx
        simpa [← ha]
      simp only [List.filter_cons, ne_eq, ha, not_true, decide_false, Bool.false_eq_true, if_false]
      exact he ▸ hl.symm ▸ .refl _

theorem add_of_takes (h : c.Takes key b) : c.add key b =
    (true, { c with
      entries := (evict c.budget b.cost c.entries c.total).1 ++ [⟨key, b, b.cost⟩]
      total := (evict c.budget b.cost c.entries c.total).2 + b.cost }) := by
  simp [add, h.left, h.right.not_gt]

theorem add_of_not_takes (h : ¬c.Takes key b) : c.add key b = (false, c) := by
  rw [Takes, not_and_or, Bool.not_eq_false, Nat.not_le] at h
  simp [add, h]

theorem takes_of_add (h : (c.add key b).1) : c.Takes key b := by
  by_contra hn
  simp [add_of_not_takes hn] at h

theorem find?_add (h : c.Takes key b) : (c.add key b).2.find? key = some ⟨key, b, b.cost⟩ := by
  have hk : ∀ e ∈ c.entries, e.key ≠ key := find?_eq_none.mp (by simpa [contains] using h.left)
  have hs := evict_suffix c.budget b.cost c.entries c.total
  have hn : (evict c.budget b.cost c.entries c.total).1.find? (·.key = key) = none :=
    List.find?_eq_none.mpr fun e he => by simpa using hk e (hs.mem he)
  simp [add_of_takes h, find?, List.find?_append, hn]

namespace Balanced

theorem of_budget (budget : ℕ) : (ofBudget budget).Balanced where
  distinct := .nil
  priced   := by simp [ofBudget]
  total    := rfl
  within   := Nat.zero_le _

theorem perm (h : c.Balanced) (hl : l.Perm c.entries) : { c with entries := l }.Balanced where
  distinct := (hl.map _).nodup_iff.mpr h.distinct
  priced e he := h.priced e <| hl.mem_iff.mp he
  total    := h.total.trans (tally_perm hl).symm
  within   := h.within

theorem find?_cost_le (h : c.Balanced) (he : c.find? key = some e) : e.cost ≤ c.total := by
  have ⟨i, hi⟩ := List.mem_iff_getElem?.mp (find?_eq_some he).left
  exact h.total ▸ le_tally (f := CacheEntry.cost) hi

theorem evicts (h : c.Balanced) (hc : cost ≤ c.budget) :
    Evicts c.budget cost c.entries c.total (evict c.budget cost c.entries c.total).1
      (evict c.budget cost c.entries c.total).2 := by
  rw [h.total]
  exact evicts_evict hc

theorem add (h : c.Balanced) (key : String) (b : Buffers) : (c.add key b).2.Balanced := by
  by_cases ht : c.Takes key b
  case neg =>
    rw [add_of_not_takes ht]
    exact h
  case pos =>
    have hv := h.evicts ht.right
    have hs := evict_suffix c.budget b.cost c.entries c.total
    rw [add_of_takes ht]
    constructor
    case distinct =>
      have hk : ∀ e ∈ c.entries, e.key ≠ key :=
        find?_eq_none.mp (by simpa [contains] using ht.left)
      simp only [List.map_append, List.nodup_append, List.mem_map]
      refine ⟨h.distinct.sublist (hs.map _).sublist, List.pairwise_singleton .., ?_⟩
      intro _ ⟨e, he, hek⟩ _ ⟨_, he', hek'⟩
      cases List.mem_singleton.mp he'
      exact hek ▸ hek' ▸ hk e (hs.mem he)
    case priced =>
      simp only [List.forall_mem_append, List.forall_mem_singleton]
      exact ⟨fun e he => h.priced e (hs.mem he), trivial⟩
    case total  => simp [← hv.rest_eq h.total]
    case within => exact hv.room

theorem fetch (h : c.Balanced) (key : String) : (c.fetch key).2.Balanced := by
  rw [Cache.fetch]
  split
  case h_1 => exact h
  case h_2 he =>
    exact h.perm <| (List.perm_append_singleton ..).trans <| perm_filter h.distinct he

theorem remove (h : c.Balanced) (key : String) : (c.remove key).2.Balanced := by
  rw [Cache.remove]
  split
  case h_1 => exact h
  case h_2 e he =>
    have ht : e.cost + tally (·.cost) (c.entries.filter (·.key ≠ key)) = c.total :=
      h.total ▸ tally_perm (f := CacheEntry.cost) (perm_filter h.distinct he)
    constructor
    case distinct => exact h.distinct.sublist <| List.filter_sublist.map _
    case priced   => exact fun e he => h.priced e <| List.mem_of_mem_filter he
    case within   => exact (Nat.sub_le ..).trans h.within
    case total    => exact Nat.sub_eq_of_eq_add' ht.symm

theorem serve (h : c.Balanced) (o : Operation) : (o.serve c).2.Balanced := by
  cases o
  case add key b    => exact h.add key b
  case fetch key    => exact h.fetch key
  case remove key   => exact h.remove key
  case contains key => exact h
  case clear        => exact .of_budget c.budget

-- All that is held, in bytes.
theorem bytes_le (h : c.Balanced) : tally (·.buffers.bytes) c.entries ≤
    1000 * c.budget + 999 * tally (·.buffers.size) c.entries := by
  have ht : tally (·.buffers.bytes) c.entries ≤
      1000 * tally (·.cost) c.entries + 999 * tally (·.buffers.size) c.entries :=
    tally_le_add fun e he => h.priced e he ▸ e.buffers.bytes_le
  have := h.total
  have := h.within
  omega

end Balanced

@[simp]
theorem budget_serve (o : Operation) (c : Cache) : (o.serve c).2.budget = c.budget := by
  cases o
  case add key b =>
    by_cases ht : c.Takes key b
    · simp [Operation.serve, add_of_takes ht]
    · simp [Operation.serve, add_of_not_takes ht]
  case fetch key =>
    rw [Operation.serve, fetch]
    split <;> rfl
  case remove key =>
    rw [Operation.serve, remove]
    split <;> rfl
  case contains => rfl
  case clear    => rfl

theorem balanced_of_serves (budget : ℕ) (ops : List Operation) :
    (ops.mapM Operation.serve (ofBudget budget)).2.Balanced ∧
      (ops.mapM Operation.serve (ofBudget budget)).2.budget = budget :=
  Serving.preserves (I := fun c => c.Balanced ∧ c.budget = budget) ⟨.of_budget budget, rfl⟩
    fun o c ⟨h, hb⟩ => ⟨h.serve o, (budget_serve o c).trans hb⟩

-- Whatever was done with a cache: its keys differ, and its total is what its buffers cost together
-- and is within the budget. A removal takes a cost from a total that has it, and so does driving
-- out, which ends with enough room. What is added is there then, and the budget bounds all bytes.
theorem books_balance (budget : ℕ) (ops : List Operation) :
    let c := (ops.mapM Operation.serve (ofBudget budget)).2
    (c.entries.map (·.key)).Nodup ∧
    c.total = tally (·.buffers.cost) c.entries ∧ c.total ≤ budget ∧
    (∀ key e, c.find? key = some e →
      e.cost ≤ c.total ∧ (c.remove key).2.total = c.total - e.cost) ∧
    (∀ key b, (c.add key b).1 → ∃ kept rest, Evicts budget b.cost c.entries c.total kept rest ∧
      (c.add key b).2 = ⟨budget, kept ++ [⟨key, b, b.cost⟩], rest + b.cost⟩ ∧
      ((c.add key b).2.fetch key).1 = some b) ∧
    tally (·.buffers.bytes) c.entries ≤ 1000 * budget + 999 * tally (·.buffers.size) c.entries := by
  intro c
  have ⟨h, hb⟩ : c.Balanced ∧ c.budget = budget := balanced_of_serves budget ops
  refine ⟨h.distinct, ?total, hb ▸ h.within, ?remove, ?add, hb ▸ h.bytes_le⟩
  case total =>
    rw [h.total]
    exact tally_congr h.priced
  case remove =>
    intro key e he
    exact ⟨h.find?_cost_le he, by simp [remove, he]⟩
  case add =>
    intro key b ha
    have ht := takes_of_add ha
    refine ⟨_, _, hb ▸ h.evicts ht.right, ?_, ?_⟩
    · rw [add_of_takes ht, hb]
    · rw [fetch, find?_add ht]

-- The buffers that were not used for the longest time give way, and those that cost nothing stay.
theorem unused_give_way :
    let zeros (n : ℕ) : Buffers := .ofList [("w", List.replicate n 0)]
    let ops : List Operation :=
      [.add "a" (zeros 2000), .add "b" (zeros 1000), .add "c" (zeros 0), .fetch "a"]
    let c := (ops.mapM Operation.serve (ofBudget 4)).2
    c.entries.map (·.key) = ["b", "c", "a"] ∧ c.total = 3 ∧ (c.add "d" (zeros 2000)).1 ∧
      (c.add "d" (zeros 2000)).2.entries.map (·.key) = ["c", "a", "d"] ∧
      c.total = tally (·.buffers.cost) c.entries ∧
      ((c.add "d" (zeros 2000)).2.fetch "d").1 = some (zeros 2000) := by
  intro zeros ops c
  have ha : (c.add "d" (zeros 2000)).1 := by decide +kernel
  have ⟨_, ht, _, _, hadd, _⟩ := books_balance 4 ops
  have ⟨_, _, _, _, hd⟩ := hadd "d" (zeros 2000) ha
  exact ⟨by decide +kernel, by decide +kernel, ha, by decide +kernel, ht, hd⟩

end Cache
end Inference
