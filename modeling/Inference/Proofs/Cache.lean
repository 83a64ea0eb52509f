import Inference.Cache
import Mathlib.Data.List.Infix
import Mathlib.Tactic.Common

/-!
What the operations of a cache do to its entries. An operation brings in no entry but the one that
is added.
-/

namespace Inference.Cache

variable {c : Cache} {key : String} {b : Buffers} {e : CacheEntry}

theorem evict_suffix (budget cost : ℕ) (l : List CacheEntry) (total : ℕ) :
    (evict budget cost l total).1 <:+ l := by
  induction l generalizing total
  case nil => exact List.suffix_refl _
  case cons e l hi =>
    rw [evict]
    split
    · exact (hi _).trans <| List.suffix_cons e l
    · exact List.suffix_refl _

theorem find?_eq_some (h : c.find? key = some e) : e ∈ c.entries ∧ e.key = key :=
  ⟨List.mem_of_find?_eq_some h, by simpa using List.find?_some h⟩

theorem find?_eq_none : c.find? key = none ↔ ∀ e ∈ c.entries, e.key ≠ key := by
  simp [find?]

-- The buffers are added.
def Takes (c : Cache) (key : String) (b : Buffers) : Prop :=
  c.contains key = false ∧ b.cost ≤ c.budget

theorem mem_add_of_takes (h : c.Takes key b) : ⟨key, b, b.cost⟩ ∈ (c.add key b).2.entries := by
  simp [add, h.left, h.right.not_gt]

theorem mem_of_mem_add (h : e ∈ (c.add key b).2.entries) :
    e ∈ c.entries ∨ c.Takes key b ∧ e = ⟨key, b, b.cost⟩ := by
  simp only [add] at h
  split at h
  case isTrue  => exact .inl h
  case isFalse hc =>
    simp only [Bool.or_eq_true, decide_eq_true_eq, not_or, Bool.not_eq_true, not_lt] at hc
    rcases List.mem_append.mp h with h | h
    · exact .inl <| (evict_suffix ..).mem h
    · exact .inr ⟨hc, List.mem_singleton.mp h⟩

theorem mem_of_mem_fetch (h : e ∈ (c.fetch key).2.entries) : e ∈ c.entries := by
  rw [fetch] at h
  split at h
  case h_1 => exact h
  case h_2 he =>
    rcases List.mem_append.mp h with h | h
    · exact List.mem_of_mem_filter h
    · exact List.mem_singleton.mp h ▸ (find?_eq_some he).left

theorem fetch_eq_some (h : (c.fetch key).1 = some b) :
    ∃ e ∈ c.entries, e.key = key ∧ e.buffers = b := by
  rw [fetch] at h
  split at h
  case h_1 => cases h
  case h_2 e he => exact ⟨e, (find?_eq_some he).left, (find?_eq_some he).right, Option.some.inj h⟩

theorem entries_remove (c : Cache) (key : String) :
    (c.remove key).2.entries = c.entries.filter (·.key ≠ key) := by
  rw [remove]
  split
  case h_1 he => exact (List.filter_eq_self.mpr <| by simpa using find?_eq_none.mp he).symm
  case h_2    => rfl

theorem mem_remove : e ∈ (c.remove key).2.entries ↔ e ∈ c.entries ∧ e.key ≠ key := by
  simp [entries_remove]

end Inference.Cache
