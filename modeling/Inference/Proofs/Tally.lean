import Mathlib.Data.List.Forall2
import Mathlib.Tactic.Common

/-!
Sums of weights over the parties of a system. A step changes the weight of the party that takes it,
and of those that it rouses.
-/

namespace Inference

-- The weights of all elements of a list.
def tally {β : Type} (f : β → ℕ) : List β → ℕ
  | [] => 0
  | a :: l => f a + tally f l

section Tally

variable {β : Type} {f : β → ℕ} {l l' : List β} {a b : β} {i : ℕ}

@[simp]
theorem tally_nil : tally f [] = 0 := rfl

@[simp]
theorem tally_cons : tally f (a :: l) = f a + tally f l := rfl

@[simp]
theorem tally_append : tally f (l ++ l') = tally f l + tally f l' := by
  induction l
  case nil => simp
  case cons hi => simp [hi, Nat.add_assoc]

theorem tally_eq_zero_iff : tally f l = 0 ↔ ∀ a ∈ l, f a = 0 := by
  induction l <;> simp_all

theorem tally_pos_iff : 0 < tally f l ↔ ∃ a ∈ l, 0 < f a := by
  simp [Nat.pos_iff_ne_zero, tally_eq_zero_iff]

theorem tally_one : tally (fun _ : β => 1) l = l.length := by
  induction l
  case nil     => rfl
  case cons hi => rw [tally_cons, hi, List.length_cons, Nat.add_comm]

theorem tally_eq_countP {p : β → Bool} (h : ∀ a, f a = if p a then 1 else 0) :
    tally f l = l.countP p := by
  induction l
  case nil         => rfl
  case cons a _ hi => rw [tally_cons, hi, List.countP_cons, h, Nat.add_comm]

theorem tally_congr {g : β → ℕ} (h : ∀ a ∈ l, f a = g a) : tally f l = tally g l := by
  induction l
  case nil => rfl
  case cons a l hi =>
    have ⟨ha, hl⟩ := List.forall_mem_cons.mp h
    rw [tally_cons, tally_cons, ha, hi hl]

theorem tally_perm (h : l.Perm l') : tally f l = tally f l' := by
  induction h
  case nil           => rfl
  case cons hi       => rw [tally_cons, tally_cons, hi]
  case swap          => simp [Nat.add_left_comm]
  case trans hi hi'  => exact hi.trans hi'

theorem tally_le_add {g h : β → ℕ} {m n : ℕ} (hf : ∀ a ∈ l, f a ≤ m * g a + n * h a) :
    tally f l ≤ m * tally g l + n * tally h l := by
  induction l
  case nil => simp
  case cons a l hi =>
    have ⟨ha, hl⟩ := List.forall_mem_cons.mp hf
    have := hi hl
    simp only [tally_cons, Nat.mul_add]
    omega

theorem count_flatMap {γ : Type} [BEq γ] (F : β → List γ) (l : List β) (c : γ) :
    (l.flatMap F).count c = tally (fun b => (F b).count c) l := by
  induction l
  case nil => rfl
  case cons hi => rw [List.flatMap_cons, List.count_append, hi, tally_cons]

-- The element at a place is exchanged for another one.
theorem tally_set (h : l[i]? = some a) : tally f (l.set i b) + f a = tally f l + f b := by
  induction l generalizing i
  case nil => simp at h
  case cons c l hi =>
    cases i
    case zero =>
      simp only [List.getElem?_cons_zero, Option.some.injEq] at h
      simp [h]
      omega
    case succ i =>
      have := hi (by simpa using h)
      simp
      omega

theorem tally_eraseIdx (h : l[i]? = some a) : tally f (l.eraseIdx i) + f a = tally f l := by
  induction l generalizing i
  case nil => simp at h
  case cons c l hi =>
    cases i
    case zero =>
      simp only [List.getElem?_cons_zero, Option.some.injEq] at h
      simp [h]
      omega
    case succ i =>
      have := hi (by simpa using h)
      simp
      omega

theorem le_tally (h : l[i]? = some a) : f a ≤ tally f l := by
  have := tally_eraseIdx (f := f) h
  omega

-- The parties at two places.
theorem add_le_tally {j : ℕ} (hi : l[i]? = some a) (hj : l[j]? = some b) (hij : i ≠ j) :
    f a + f b ≤ tally f l := by
  have hb : b ∈ l.eraseIdx i := List.mem_eraseIdx_iff_getElem?.mpr ⟨j, hij.symm, hj⟩
  have ⟨k, hk⟩ := List.mem_iff_getElem?.mp hb
  have := le_tally (f := f) hk
  have := tally_eraseIdx (f := f) hi
  omega

-- What only one party can have is what the party at this place has.
theorem flatMap_set_of_tally_le {γ : Type} {F : β → List γ} (hF : ∀ a, f a = 0 → F a = [])
    (h : l[i]? = some a) (ha : tally f l ≤ f a) : (l.set i b).flatMap F = F b := by
  induction l generalizing i
  case nil => simp at h
  case cons c l hi =>
    rw [tally_cons] at ha
    cases i
    case zero =>
      simp only [List.getElem?_cons_zero, Option.some.injEq] at h
      have ht : tally f l = 0 := by
        rw [h] at ha
        omega
      simpa using fun c hc => hF c <| tally_eq_zero_iff.mp ht c hc
    case succ i =>
      have hl := tally_eraseIdx (f := f) (by simpa using h : l[i]? = some a)
      have hc : F c = [] := hF c (by omega)
      simpa [hc] using hi (by simpa using h) (by omega)

theorem set_of_getElem? (h : l[i]? = some a) : l.set i a = l := by
  obtain ⟨hi, rfl⟩ := List.getElem?_eq_some_iff.mp h
  exact List.set_getElem_self hi

theorem map_set_of_eq {γ : Type} {F : β → γ} (h : l[i]? = some a) (hF : F b = F a) :
    (l.set i b).map F = l.map F := by
  rw [List.map_set, hF]
  exact set_of_getElem? (by rw [List.getElem?_map, h]; rfl)

theorem flatMap_set_of_eq {γ : Type} {F : β → List γ} (h : l[i]? = some a) (hF : F b = F a) :
    (l.set i b).flatMap F = l.flatMap F := by
  induction l generalizing i
  case nil => simp at h
  case cons c l hi =>
    cases i
    case zero =>
      simp only [List.getElem?_cons_zero, Option.some.injEq] at h
      simp [hF, h]
    case succ i => simpa using hi (by simpa using h)

theorem flatMap_eraseIdx_of_nil {γ : Type} {F : β → List γ} (h : l[i]? = some a) (hF : F a = []) :
    (l.eraseIdx i).flatMap F = l.flatMap F := by
  induction l generalizing i
  case nil => simp at h
  case cons c l hi =>
    cases i
    case zero =>
      simp only [List.getElem?_cons_zero, Option.some.injEq] at h
      simp [hF, h]
    case succ i => simpa using hi (by simpa using h)

end Tally

-- Each element has stayed, or has become what it becomes when it is roused.
def Roused {β : Type} (wake : β → β) : List β → List β → Prop :=
  List.Forall₂ fun a b => b = a ∨ b = wake a

namespace Roused

variable {β : Type} {wake : β → β} {l l' : List β} {a b : β} {i : ℕ}

theorem refl (l : List β) : Roused wake l l := by
  induction l
  case nil => exact .nil
  case cons hi => exact .cons (.inl rfl) hi

theorem map (l : List β) : Roused wake l (l.map wake) := by
  induction l
  case nil => exact .nil
  case cons hi => exact .cons (.inr rfl) hi

theorem modify (l : List β) (i : ℕ) : Roused wake l (l.modify i wake) := by
  induction l generalizing i
  case nil => simpa using .nil
  case cons a l hi =>
    cases i
    case zero => simpa using .cons (.inr rfl) (refl l)
    case succ i => simpa using .cons (.inl rfl) (hi i)

theorem eq_nil (h : Roused wake [] l) : l = [] := List.forall₂_nil_left_iff.mp h

theorem ne_nil (h : Roused wake l l') (hn : l ≠ []) : l' ≠ [] := by
  rintro rfl
  exact hn <| List.forall₂_nil_right_iff.mp h

theorem tally_eq {f : β → ℕ} (h : Roused wake l l') (hf : ∀ a ∈ l, f (wake a) = f a) :
    tally f l' = tally f l := by
  induction h
  case nil => rfl
  case cons h _ hi =>
    rw [List.forall_mem_cons] at hf
    rcases h with rfl | rfl <;> simp [hi hf.right, hf.left]

theorem map_eq {γ : Type} {F : β → γ} (h : Roused wake l l') (hF : ∀ a, F (wake a) = F a) :
    l'.map F = l.map F := by
  induction h
  case nil => rfl
  case cons h _ hi => rcases h with rfl | rfl <;> simp [hi, hF]

theorem getElem? (h : Roused wake l l') (hi : l[i]? = some a) :
    ∃ b, l'[i]? = some b ∧ (b = a ∨ b = wake a) := by
  induction h generalizing i
  case nil => simp at hi
  case cons h _ ih =>
    cases i
    case zero =>
      simp only [List.getElem?_cons_zero, Option.some.injEq] at hi
      exact ⟨_, rfl, hi ▸ h⟩
    case succ i => simpa using ih (by simpa using hi)

theorem mem (h : Roused wake l l') (hb : b ∈ l') : ∃ a ∈ l, b = a ∨ b = wake a := by
  induction h
  case nil => simp at hb
  case cons x y l l' h _ ih =>
    rcases List.mem_cons.mp hb with rfl | hb
    · exact ⟨_, List.mem_cons_self, h⟩
    · have ⟨a, ha, h⟩ := ih hb
      exact ⟨a, List.mem_cons_of_mem _ ha, h⟩

theorem forall_mem {P : β → Prop} (h : Roused wake l l') (hw : ∀ a, P a → P (wake a))
    (hl : ∀ a ∈ l, P a) : ∀ b ∈ l', P b := by
  intro b hb
  have ⟨a, ha, h⟩ := h.mem hb
  rcases h with rfl | rfl
  · exact hl _ ha
  · exact hw _ (hl _ ha)

end Roused

theorem getElem?_append_of_some {β : Type} {l : List β} {b : β} {i : ℕ} (h : l[i]? = some b)
    (l' : List β) : (l ++ l')[i]? = some b := by
  rw [List.getElem?_append_left (List.getElem?_eq_some_iff.mp h).choose, h]

theorem forall_mem_set {β : Type} {P : β → Prop} {l : List β} {b : β} (i : ℕ)
    (hl : ∀ a ∈ l, P a) (hb : P b) : ∀ a ∈ l.set i b, P a :=
  fun a ha => (List.mem_or_eq_of_mem_set ha).elim (hl a) (· ▸ hb)

theorem mem_set_of_ne {β : Type} {l : List β} {a b c : β} {i : ℕ} (ha : a ∈ l)
    (hi : l[i]? = some b) (hne : a ≠ b) : a ∈ l.set i c := by
  have ⟨j, hj⟩ := List.mem_iff_getElem?.mp ha
  have hij : i ≠ j := by
    intro hij
    subst hij
    exact hne <| Option.some.inj (hj.symm.trans hi)
  rw [← List.getElem?_set_ne hij] at hj
  exact List.mem_of_getElem? hj

end Inference
