import Mathlib.Tactic
import Inference.Dict

/-!
Maps made from a list of entries. An entry with a key above all others is put behind them, so the
entries of a map make that map again. A map is determined by what is found in it.
-/

namespace Inference

variable {α β : Type}

namespace Entries

theorem put_of_forall_lt {k : String} (a : α) {es : List (String × α)} (h : ∀ e ∈ es, e.1 < k) :
    put k a es = es ++ [(k, a)] := by
  induction es with
  | nil          => rfl
  | cons e es ih =>
    obtain ⟨he, hes⟩ := List.forall_mem_cons.1 h
    rw [put, if_neg (String.lt_asymm he), if_pos he, ih hes, List.cons_append]

theorem mem_of_mem_put {k : String} {a : α} {e : String × α} {es : List (String × α)}
    (h : e ∈ put k a es) : e = (k, a) ∨ e ∈ es := by
  induction es with
  | nil          => exact .inl (List.mem_singleton.1 h)
  | cons e' es ih =>
    rw [put] at h
    split at h
    case isTrue => exact List.mem_cons.1 h
    split at h
    case isTrue =>
      obtain rfl | h := List.mem_cons.1 h
      · exact .inr (List.mem_cons_self ..)
      · exact (ih h).imp_right (List.mem_cons_of_mem _)
    case isFalse => exact (List.mem_cons.1 h).imp_right (List.mem_cons_of_mem _)

-- Every key of an ordered list is found with its value.
theorem get?_eq_some {k : String} {a : α} {es : List (String × α)} (h : Sorted es) :
    get? k es = some a ↔ (k, a) ∈ es := by
  induction es with
  | nil          => simp [get?]
  | cons e es ih =>
    obtain ⟨he, hes⟩ := List.pairwise_cons.1 h
    rw [get?_cons, List.mem_cons]
    split
    case isFalse hk =>
      have hne : (k, a) ≠ e := fun hke => hk (congrArg Prod.fst hke)
      exact (ih hes).trans (or_iff_right hne).symm
    case isTrue hk =>
      have hn : (k, a) ∉ es := fun hm => String.lt_irrefl e.1 (hk ▸ he (k, a) hm)
      rw [or_iff_left hn, hk, Option.some.injEq, Prod.ext_iff]
      simp [eq_comm]

-- The entries on the left of an ordered list are below each on the right.
theorem Sorted.lt_of_append {es : List (String × α)} {k : String} {a : α}
    {fs : List (String × α)} (h : Sorted (es ++ (k, a) :: fs)) : ∀ e ∈ es, e.1 < k :=
  fun e he => (List.pairwise_append.1 h).2.2 e he (k, a) (List.mem_cons_self ..)

theorem Sorted.nodup_keys {es : List (String × α)} (h : Sorted es) : (es.map (·.1)).Nodup :=
  List.pairwise_map.2 (h.imp String.ne_of_lt)

end Entries

namespace Dict

theorem ext {d e : Dict α} (h : d.entries = e.entries) : d = e := by
  cases d
  cases e
  cases h
  rfl

theorem get?_eq_some {d : Dict α} {k : String} {a : α} : d.get? k = some a ↔ (k, a) ∈ d.entries :=
  Entries.get?_eq_some d.sorted

theorem foldl_insert_entries (d : Dict α) (es : List (String × α))
    (h : Entries.Sorted (d.entries ++ es)) :
    (es.foldl (fun d e => d.insert e.1 e.2) d).entries = d.entries ++ es := by
  induction es generalizing d with
  | nil          => simp
  | cons e es ih =>
    have hi : (d.insert e.1 e.2).entries = d.entries ++ [e] :=
      Entries.put_of_forall_lt _ (Entries.Sorted.lt_of_append h)
    rw [List.foldl_cons, ih _ (by simpa [hi] using h), hi, List.append_assoc]
    rfl

@[simp]
theorem ofList_entries (d : Dict α) : ofList d.entries = d :=
  ext ((foldl_insert_entries ∅ d.entries d.sorted).trans (List.nil_append _))

theorem mem_foldl_insert {d : Dict α} {es : List (String × α)} {e : String × α}
    (h : e ∈ (es.foldl (fun d e => d.insert e.1 e.2) d).entries) : e ∈ d.entries ∨ e ∈ es := by
  induction es generalizing d with
  | nil           => exact .inl h
  | cons e' es ih =>
    obtain h | h := ih h
    · obtain rfl | h := Entries.mem_of_mem_put h
      · exact .inr (List.mem_cons_self ..)
      · exact .inl h
    · exact .inr (List.mem_cons_of_mem _ h)

theorem mem_of_mem_ofList {es : List (String × α)} {e : String × α}
    (h : e ∈ (ofList es).entries) : e ∈ es :=
  (mem_foldl_insert h).resolve_left (List.not_mem_nil)

-- Of several entries with one key the last one is found.
theorem get?_foldl_insert (d : Dict α) (es : List (String × α)) (k : String) :
    (es.foldl (fun d e => d.insert e.1 e.2) d).get? k =
      (Entries.get? k es.reverse).or (d.get? k) := by
  induction es using List.reverseRecOn with
  | nil                      => rfl
  | append_singleton es e ih =>
    rw [List.foldl_append, List.foldl_cons, List.foldl_nil, get?_insert, ih, List.reverse_append,
      List.reverse_singleton, List.singleton_append, Entries.get?_cons]
    split <;> rfl

theorem get?_override (d e : Dict α) (k : String) :
    (d.override e).get? k = (e.get? k).or (d.get? k) := by
  have he := get?_foldl_insert ∅ e.entries k
  rw [← ofList, ofList_entries] at he
  rw [override, get?_foldl_insert, he]
  exact congrArg (Option.or · _) Option.or_none.symm

theorem ext_get? {d e : Dict α} (h : ∀ k, d.get? k = e.get? k) : d = e := by
  have hm (x : String × α) : x ∈ d.entries ↔ x ∈ e.entries := by
    rw [← get?_eq_some, ← get?_eq_some, h]
  have hp : d.entries.Perm e.entries :=
    (List.perm_ext_iff_of_nodup (.of_map _ d.sorted.nodup_keys) (.of_map _ e.sorted.nodup_keys)).2
      hm
  have ha : ∀ x y : String × α, x ∈ d.entries → y ∈ e.entries → x.1 < y.1 → y.1 < x.1 → x = y :=
    fun _ _ _ _ h h' => absurd h' (String.lt_asymm h)
  exact ext (hp.eq_of_pairwise ha d.sorted e.sorted)

theorem mem_keys {d : Dict α} {k : String} : k ∈ d.keys ↔ ∃ a, d.get? k = some a := by
  simp [keys, get?_eq_some]

theorem nodup_keys (d : Dict α) : d.keys.Nodup := d.sorted.nodup_keys

theorem length_keys (d : Dict α) : d.keys.length = d.size := List.length_map _

end Dict
end Inference
