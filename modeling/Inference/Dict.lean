/-!
Finite maps from texts, kept in the order of their keys: by code point, which is also the order of
their UTF-8 bytes. A map is determined by its list of entries.
-/

namespace Inference

namespace Entries

variable {α : Type}

def put (k : String) (a : α) : List (String × α) → List (String × α)
  | [] => [(k, a)]
  | e :: es =>
    if k < e.1 then (k, a) :: e :: es
    else if e.1 < k then e :: put k a es
    else (k, a) :: es

def get? (k : String) (es : List (String × α)) : Option α := es.lookup k

def drop (k : String) (es : List (String × α)) : List (String × α) := es.filter (·.1 ≠ k)

abbrev Sorted (es : List (String × α)) : Prop := es.Pairwise (·.1 < ·.1)

theorem mem_put {k : String} {a : α} {e : String × α} {es : List (String × α)}
    (h : e ∈ put k a es) : e.1 = k ∨ e ∈ es := by
  induction es with
  | nil => simp_all [put]
  | cons e' es ih =>
    rw [put] at h
    split at h
    · rcases List.mem_cons.1 h with rfl | h
      · exact .inl rfl
      · exact .inr h
    · split at h
      · rcases List.mem_cons.1 h with rfl | h
        · exact .inr (List.mem_cons_self ..)
        · exact (ih h).imp id (List.mem_cons_of_mem _)
      · rcases List.mem_cons.1 h with rfl | h
        · exact .inl rfl
        · exact .inr (List.mem_cons_of_mem _ h)

theorem sorted_put (k : String) (a : α) {es : List (String × α)} (h : Sorted es) :
    Sorted (put k a es) := by
  induction es with
  | nil => simp [put, Sorted]
  | cons e es ih =>
    obtain ⟨he, hes⟩ := List.pairwise_cons.1 h
    rw [put]
    split
    · refine List.pairwise_cons.2 ⟨fun x hx => ?_, h⟩
      rcases List.mem_cons.1 hx with rfl | hx
      · assumption
      · exact String.lt_trans (by assumption) (he x hx)
    · split
      · refine List.pairwise_cons.2 ⟨fun x hx => ?_, ih hes⟩
        rcases mem_put hx with hk | hx
        · rw [hk]; assumption
        · exact he x hx
      · rename_i hk hk'
        have : e.1 = k := String.le_antisymm (String.not_lt.1 hk) (String.not_lt.1 hk')
        exact List.pairwise_cons.2 ⟨fun x hx => this ▸ he x hx, hes⟩

theorem sorted_drop (k : String) {es : List (String × α)} (h : Sorted es) : Sorted (drop k es) :=
  h.filter _

theorem get?_cons (k : String) (e : String × α) (es : List (String × α)) :
    get? k (e :: es) = if k = e.1 then some e.2 else get? k es := by
  rw [get?, List.lookup_cons]
  by_cases h : k = e.1
  · simp [h]
  · rw [beq_eq_false_iff_ne.2 h, if_neg h]
    rfl

theorem get?_put (k k' : String) (a : α) (es : List (String × α)) :
    get? k' (put k a es) = if k' = k then some a else get? k' es := by
  induction es with
  | nil => exact get?_cons ..
  | cons e es ih =>
    rw [put]
    split
    · exact get?_cons ..
    · rename_i hk
      split
      · rename_i hk'
        have hne : e.1 ≠ k := fun h => String.lt_irrefl k (h ▸ hk')
        by_cases h : k' = e.1 <;> simp [get?_cons, ih, h, hne]
      · rename_i hk'
        have he : e.1 = k := String.le_antisymm (String.not_lt.1 hk) (String.not_lt.1 hk')
        by_cases h : k' = k <;> simp [get?_cons, h, he]

theorem get?_drop (k k' : String) (es : List (String × α)) :
    get? k' (drop k es) = if k' = k then none else get? k' es := by
  induction es with
  | nil => simp [drop, get?]
  | cons e es ih =>
    rw [drop] at ih
    by_cases he : e.1 = k
    · by_cases h : k' = k <;> simp_all [drop, get?_cons]
    · by_cases h : k' = e.1 <;> simp_all [drop, get?_cons]

end Entries

structure Dict (α : Type) where
  entries : List (String × α)
  sorted : Entries.Sorted entries

namespace Dict

variable {α : Type}

instance [DecidableEq α] : DecidableEq (Dict α) := fun d e =>
  if h : d.entries = e.entries then .isTrue (by cases d; cases e; cases h; rfl)
  else .isFalse (h ∘ congrArg entries)

def empty : Dict α := ⟨[], .nil⟩

instance : Inhabited (Dict α) := ⟨empty⟩

instance : EmptyCollection (Dict α) := ⟨empty⟩

def insert (d : Dict α) (k : String) (a : α) : Dict α :=
  ⟨Entries.put k a d.entries, Entries.sorted_put k a d.sorted⟩

def erase (d : Dict α) (k : String) : Dict α :=
  ⟨Entries.drop k d.entries, Entries.sorted_drop k d.sorted⟩

def get? (d : Dict α) (k : String) : Option α := Entries.get? k d.entries

theorem get?_insert (d : Dict α) (k k' : String) (a : α) :
    (d.insert k a).get? k' = if k' = k then some a else d.get? k' := Entries.get?_put ..

theorem get?_erase (d : Dict α) (k k' : String) :
    (d.erase k).get? k' = if k' = k then none else d.get? k' := Entries.get?_drop ..

def contains (d : Dict α) (k : String) : Bool := (d.get? k).isSome

def keys (d : Dict α) : List String := d.entries.map (·.1)

def size (d : Dict α) : Nat := d.entries.length

-- Of two entries with one key the later one stays.
def ofList (es : List (String × α)) : Dict α := es.foldl (fun d e => d.insert e.1 e.2) ∅

-- All entries of both maps; `e` wins where both have a key.
def override (d e : Dict α) : Dict α := e.entries.foldl (fun d x => d.insert x.1 x.2) d

end Dict
end Inference
