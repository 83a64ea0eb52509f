import Inference.Proofs.Cache.Budget
import Mathlib.Data.List.Nodup

/-!
A cache as a plain list of keys with their buffers, those first that were not used for the longest
time. The list says what an operation may come to: what is used goes to the end, what is added takes
no more from the front than it needs, and nothing else moves. A cache does what the list says, and
the list leaves it no choice.
-/

namespace Inference

abbrev Recency := List (String × Buffers)

namespace Recency

open Cache (Operation)

def keys (l : Recency) : List String := l.map (·.1)

def cost (l : Recency) : ℕ := tally (·.2.cost) l

-- There is enough room once so many entries are gone from the front, and not before.
structure MakesRoom (budget cost : ℕ) (l : Recency) (n : ℕ) : Prop where
  room  : Recency.cost (l.drop n) + cost ≤ budget
  least : ∀ m < n, budget < Recency.cost (l.drop m) + cost

-- What an operation may come to.
inductive Serves (budget : ℕ) : Recency → Operation → Cache.Answer → Recency → Prop
  | add {l key b n} : key ∉ keys l → b.cost ≤ budget → MakesRoom budget b.cost l n →
      Serves budget l (.add key b) (.flag true) (l.drop n ++ [(key, b)])
  | refuse {l key b} : key ∈ keys l ∨ budget < b.cost →
      Serves budget l (.add key b) (.flag false) l
  | fetch (l key b l') :
      Serves budget (l ++ (key, b) :: l') (.fetch key) (.found (some b)) (l ++ l' ++ [(key, b)])
  | lack {l key} : key ∉ keys l → Serves budget l (.fetch key) (.found none) l
  | remove (l key b l') :
      Serves budget (l ++ (key, b) :: l') (.remove key) (.flag true) (l ++ l')
  | absent {l key} : key ∉ keys l → Serves budget l (.remove key) (.flag false) l
  | contains (l key) : Serves budget l (.contains key) (.flag (key ∈ keys l)) l
  | clear (l) : Serves budget l .clear .done []

inductive Runs (budget : ℕ) : Recency → List Operation → List Cache.Answer → Recency → Prop
  | nil (l) : Runs budget l [] [] l
  | cons {l l' l'' o a os as} : Serves budget l o a l' → Runs budget l' os as l'' →
      Runs budget l (o :: os) (a :: as) l''

variable {l l' l₁ l₂ m m' : Recency} {key : String} {b b' : Buffers} {o : Operation}
  {a a' : Cache.Answer} {budget c n k : ℕ}

theorem MakesRoom.unique (h : MakesRoom budget c l n) (h' : MakesRoom budget c l k) : n = k := by
  rcases Nat.lt_trichotomy n k with hlt | rfl | hlt
  · exact absurd h.room (h'.least n hlt).not_ge
  · rfl
  · exact absurd h'.room (h.least k hlt).not_ge

theorem mem_keys (l : Recency) (key : String) (b : Buffers) (l' : Recency) :
    key ∈ keys (l ++ (key, b) :: l') := by
  simp [keys]

-- Where the keys differ a key stands in one place only.
theorem split_unique (hn : (keys (l ++ (key, b) :: l')).Nodup)
    (h : l ++ (key, b) :: l' = m ++ (key, b') :: m') : l = m ∧ b = b' ∧ l' = m' := by
  induction l generalizing m
  case nil =>
    cases m
    case nil => simpa using h
    case cons x m =>
      obtain ⟨rfl, rfl⟩ := List.cons.inj h
      simp [keys] at hn
  case cons x l hi =>
    cases m
    case nil =>
      obtain ⟨rfl, rfl⟩ := List.cons.inj h
      simp [keys] at hn
    case cons y m =>
      obtain ⟨rfl, ht⟩ := List.cons.inj h
      have ⟨hl, hb, hl'⟩ := hi (List.nodup_cons.mp hn).right ht
      exact ⟨congrArg _ hl, hb, hl'⟩

-- The answer and what is left are determined.
theorem Serves.unique (hn : (keys l).Nodup) (h : Serves budget l o a l₁)
    (h' : Serves budget l o a' l₂) : a = a' ∧ l₁ = l₂ := by
  cases h
  case add hb hk hr =>
    cases h'
    case add hr'   => exact ⟨rfl, by rw [hr.unique hr']⟩
    case refuse hr => exact (hr.elim hk hb.not_gt).elim
  case refuse hr =>
    cases h'
    case add hk hb _ => exact (hr.elim hk hb.not_gt).elim
    case refuse      => exact ⟨rfl, rfl⟩
  case fetch l key b l' =>
    generalize hm : l ++ (key, b) :: l' = m at hn h'
    cases h'
    case fetch =>
      obtain ⟨rfl, rfl, rfl⟩ := split_unique (hm ▸ hn) hm
      exact ⟨rfl, rfl⟩
    case lack hk => exact (hk <| hm ▸ mem_keys ..).elim
  case lack hk =>
    cases h'
    case fetch => exact (hk <| mem_keys ..).elim
    case lack  => exact ⟨rfl, rfl⟩
  case remove l key b l' =>
    generalize hm : l ++ (key, b) :: l' = m at hn h'
    cases h'
    case remove =>
      obtain ⟨rfl, rfl, rfl⟩ := split_unique (hm ▸ hn) hm
      exact ⟨rfl, rfl⟩
    case absent hk => exact (hk <| hm ▸ mem_keys ..).elim
  case absent hk =>
    cases h'
    case remove => exact (hk <| mem_keys ..).elim
    case absent => exact ⟨rfl, rfl⟩
  case contains =>
    cases h'
    exact ⟨rfl, rfl⟩
  case clear =>
    cases h'
    exact ⟨rfl, rfl⟩

end Recency

namespace Cache

-- What a cache holds, without the costs.
def view (l : List CacheEntry) : Recency := l.map fun e => (e.key, e.buffers)

def recency (c : Cache) : Recency := view c.entries

variable {c : Cache} {key : String} {b : Buffers} {e : CacheEntry} {l kept : List CacheEntry}
  {budget cost sum rest : ℕ}

theorem keys_view (l : List CacheEntry) : Recency.keys (view l) = l.map (·.key) := by
  simp [Recency.keys, view]

theorem cost_view (h : ∀ e ∈ l, e.cost = e.buffers.cost) :
    Recency.cost (view l) = tally (·.cost) l := by
  induction l
  case nil => rfl
  case cons e l hi =>
    have ⟨he, hl⟩ := List.forall_mem_cons.mp h
    rw [tally_cons, he, ← hi hl]
    rfl

theorem find?_eq_none_iff : c.find? key = none ↔ key ∉ Recency.keys c.recency := by
  simp [find?_eq_none, recency, keys_view]

theorem contains_eq_decide (c : Cache) (key : String) :
    c.contains key = decide (key ∈ Recency.keys c.recency) := by
  rw [contains, Bool.eq_iff_iff, Option.isSome_iff_ne_none, ne_eq, find?_eq_none_iff, not_not,
    decide_eq_true_iff]

theorem takes_iff : c.Takes key b ↔ key ∉ Recency.keys c.recency ∧ b.cost ≤ c.budget := by
  rw [Takes, contains_eq_decide, decide_eq_false_iff_not]

-- An entry is driven out only if those from it on leave no room.
theorem Evicts.exists_drop (h : Evicts budget cost l sum kept rest) (ht : sum = tally (·.cost) l) :
    ∃ n, kept = l.drop n ∧ ∀ m < n, budget < tally (·.cost) (l.drop m) + cost := by
  induction h
  case enough => exact ⟨0, rfl, by simp⟩
  case drop e l total kept rest hb _ _ hi =>
    have hl : total - e.cost = tally (·.cost) l := by
      rw [ht, tally_cons]
      exact Nat.add_sub_cancel_left ..
    have ⟨n, hk, hn⟩ := hi hl
    refine ⟨n + 1, hk, fun m hm => ?_⟩
    cases m
    case zero   => exact ht ▸ hb
    case succ m => exact hn m (Nat.lt_of_succ_lt_succ hm)

-- An entry that is found stands between the others.
theorem exists_of_find? (hn : (l.map (·.key)).Nodup) (he : l.find? (·.key = key) = some e) :
    ∃ l₁ l₂, l = l₁ ++ e :: l₂ ∧ l.filter (·.key ≠ key) = l₁ ++ l₂ := by
  obtain ⟨hk, l₁, l₂, rfl, _⟩ := List.find?_eq_some_iff_append.mp he
  obtain rfl : e.key = key := of_decide_eq_true hk
  rw [List.map_append, List.map_cons, List.nodup_middle, List.nodup_cons, ← List.map_append] at hn
  have hl : ∀ x ∈ l₁ ++ l₂, x.key ≠ e.key := fun x hx h =>
    hn.left <| h ▸ List.mem_map_of_mem hx
  refine ⟨l₁, l₂, rfl, ?_⟩
  have hf := List.filter_eq_self.mpr fun x hx => decide_eq_true (hl x hx)
  rw [List.filter_append] at hf
  rw [List.filter_append, List.filter_cons_of_neg (by simp)]
  exact hf

namespace Balanced

theorem nodup_keys (h : c.Balanced) : (Recency.keys c.recency).Nodup := by
  rw [recency, keys_view]
  exact h.distinct

theorem serves_add (h : c.Balanced) (key : String) (b : Buffers) :
    Recency.Serves c.budget c.recency (.add key b) (.flag (c.add key b).1)
      (c.add key b).2.recency := by
  by_cases ht : c.Takes key b
  case neg =>
    rw [add_of_not_takes ht]
    refine .refuse ?_
    rwa [takes_iff, not_and_or, not_not, not_le] at ht
  case pos =>
    have ⟨hk, hb⟩ := takes_iff.mp ht
    have hv := h.evicts hb
    have ⟨n, hn, hl⟩ := hv.exists_drop h.total
    have hp (m : ℕ) : Recency.cost (c.recency.drop m) = tally (·.cost) (c.entries.drop m) := by
      rw [recency, view, ← List.map_drop]
      exact cost_view fun e he => h.priced e (List.mem_of_mem_drop he)
    have hr : Recency.MakesRoom c.budget b.cost c.recency n := by
      refine ⟨?_, fun m hm => hp m ▸ hl m hm⟩
      rw [hp, ← hn, ← hv.rest_eq h.total]
      exact hv.room
    have ha : (c.add key b).2.recency = c.recency.drop n ++ [(key, b)] := by
      rw [add_of_takes ht, recency, view, hn, List.map_append, List.map_drop]
      rfl
    rw [ha, add_of_takes ht]
    exact .add hk hb hr

theorem serves_fetch (h : c.Balanced) (key : String) :
    Recency.Serves c.budget c.recency (.fetch key) (.found (c.fetch key).1)
      (c.fetch key).2.recency := by
  rw [Cache.fetch]
  split
  case h_1 he => exact .lack <| find?_eq_none_iff.mp he
  case h_2 e he =>
    obtain ⟨l₁, l₂, hl, hf⟩ := exists_of_find? h.distinct he
    obtain rfl := (find?_eq_some he).right
    rw [recency, recency, hf, hl]
    simp only [view, List.map_append, List.map_cons, List.map_nil]
    exact .fetch ..

theorem serves_remove (h : c.Balanced) (key : String) :
    Recency.Serves c.budget c.recency (.remove key) (.flag (c.remove key).1)
      (c.remove key).2.recency := by
  rw [Cache.remove]
  split
  case h_1 he => exact .absent <| find?_eq_none_iff.mp he
  case h_2 e he =>
    obtain ⟨l₁, l₂, hl, hf⟩ := exists_of_find? h.distinct he
    obtain rfl := (find?_eq_some he).right
    rw [recency, recency, hf, hl]
    simp only [view, List.map_append, List.map_cons]
    exact .remove ..

theorem serves (h : c.Balanced) (o : Operation) :
    Recency.Serves c.budget c.recency o (o.serve c).1 (o.serve c).2.recency := by
  cases o
  case add key b    => exact h.serves_add key b
  case fetch key    => exact h.serves_fetch key
  case remove key   => exact h.serves_remove key
  case contains key =>
    rw [Operation.serve, contains_eq_decide]
    exact .contains ..
  case clear        => exact .clear _

theorem runs_iff (h : c.Balanced) (ops : List Operation) (as : List Answer) (l : Recency) :
    Recency.Runs c.budget c.recency ops as l ↔
      (ops.mapM Operation.serve c).1 = as ∧ (ops.mapM Operation.serve c).2.recency = l := by
  induction ops generalizing c as
  case nil =>
    constructor
    case mp =>
      rintro ⟨_⟩
      exact ⟨rfl, rfl⟩
    case mpr =>
      rintro ⟨rfl, rfl⟩
      exact .nil _
  case cons o ops hi =>
    have hs := h.serves o
    have hi := hi (h.serve o)
    rw [budget_serve] at hi
    rw [Serving.mapM_cons]
    constructor
    case mp =>
      rintro ⟨_⟩
      case cons l' a as hs' hr =>
        obtain ⟨rfl, rfl⟩ := hs.unique h.nodup_keys hs'
        have ⟨ha, hl⟩ := (hi as).mp hr
        exact ⟨congrArg _ ha, hl⟩
    case mpr =>
      rintro ⟨rfl, hl⟩
      exact .cons hs <| (hi _).mpr ⟨rfl, hl⟩

end Balanced

-- Whatever is done with a cache, its answers and its contents are those of the list, and there is
-- only one way to do what the list says.
theorem recency_followed (budget : ℕ) (ops : List Operation) (as : List Answer) (l : Recency) :
    Recency.Runs budget [] ops as l ↔
      (ops.mapM Operation.serve (ofBudget budget)).1 = as ∧
      (ops.mapM Operation.serve (ofBudget budget)).2.recency = l :=
  (Balanced.of_budget budget).runs_iff ops as l

end Cache
end Inference
