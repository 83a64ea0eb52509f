import Inference.Proofs.Queue.Residence
import Inference.Proofs.Tensor.Record
import Mathlib.Logic.Function.Iterate

/-!
Which shapes a tensor can be made of, and which of them can be written and read. A tensor is made if
the product of its dimensions is the number of its elements modulo `2 ^ 64`, but it is only read if
none of the products from the left leaves 64 bits. A tensor that was made of any other shape is lost
once it has been written. A build with overflow checks makes no such tensor, but breaks off.
-/

namespace Inference

namespace Backlog

variable {α ρ : Type} {m : Medium α ρ} {b : Backlog α ρ} {x y : α} {r : ρ}

theorem entries_iterate_pop (m : Medium α ρ) (n : ℕ) (b : Backlog α ρ) :
    ((fun b => (b.pop m).2)^[n] b).entries = b.entries.drop n := by
  induction n
  case zero      => rfl
  case succ n hi => rw [Function.iterate_succ_apply', pop_snd, hi, List.tail_drop]

theorem entries_push_push (hw : m.write x = .ok r) (hb : b.threshold ≤ b.size + 1) :
    ∃ es, es.length = b.size ∧ ((b.push m x).push m y).entries = es ++ [.disk r, .memory y] := by
  have hl :
      (if b.threshold ≤ b.size then spillLast m b.entries else b.entries).length = b.size := by
    split
    · exact length_spillLast m b.entries
    · rfl
  refine ⟨_, hl, ?_⟩
  have ht : (b.push m x).threshold ≤ (b.push m x).size := by
    simpa [push, size] using hl.symm ▸ hb
  rw [push, if_pos ht, push, spillLast_concat, Stored.spill, hw, List.append_assoc]
  rfl

-- What a queue gives for an item that was written when the next one came, and whose turn it is.
theorem pop_spilled (hw : m.write x = .ok r) (hb : b.threshold ≤ b.size + 1) :
    (((fun b => (b.pop m).2)^[b.size] ((b.push m x).push m y)).pop m).1 = (m.read r).map some := by
  have ⟨es, hl, he⟩ := entries_push_push (y := y) hw hb
  rw [pop_fst, entries_iterate_pop, he, ← hl, List.drop_left]
  rfl

end Backlog

namespace Tensor

variable {shape : List ℕ} {data : List Single} {t : Tensor}

-- A product of dimensions from the left does not fit into 64 bits.
def Overflows (shape : List ℕ) : Prop := ∃ l, l <+: shape ∧ wordSize ≤ l.prod

theorem overflows_iff : Overflows shape ↔ checkedSize shape = none := by
  simp [Option.eq_none_iff_forall_ne_some, checkedSize_eq_some, Overflows]

instance : Decidable (Overflows shape) := decidable_of_iff _ overflows_iff.symm

-- What is read of the record of the tensor is that tensor.
def Returns (t : Tensor) : Prop := ∃ bs, medium.write t = .ok bs ∧ medium.read bs = .ok t

-- A tensor is made exactly if there is an element for each place of the shape, and then it can be
-- written and read.
structure Consistent (shape : List ℕ) (data : List Single) : Prop where
  made    : (∃ t, ofData shape data = .ok t) ↔ shape.prod = data.length
  returns : ∀ t, ofData shape data = .ok t → t.Returns

theorem ofData_eq_ok :
    ofData shape data = .ok t ↔ shape.prod % wordSize = data.length ∧ t = ⟨shape, data⟩ := by
  rw [ofData, size_eq]
  split
  case isTrue h  => simp [h, eq_comm]
  case isFalse h => simp [h]

theorem returns_iff_read : t.Returns ↔ medium.read t.encode = .ok t := by
  simp [Returns, medium]

theorem returns_iff_recordable : t.Returns ↔ t.Recordable := by
  rw [returns_iff_read, read_eq_ok_iff]
  simp

theorem returns_iff_not_overflows (hf : Fits shape) (hb : data.length * 4 < wordSize)
    (h : ofData shape data = .ok t) :
    t.Returns ↔ ¬Overflows shape := by
  obtain ⟨hm, rfl⟩ := ofData_eq_ok.mp h
  rw [returns_iff_recordable]
  constructor
  case mp => exact fun ht ⟨l, hl, ho⟩ => ho.not_gt (ht.products l hl)
  case mpr =>
    intro hn
    have hp : ∀ l, l <+: shape → l.prod < wordSize :=
      fun l hl => Nat.lt_of_not_le fun ho => hn ⟨l, hl, ho⟩
    exact ⟨hf, hp, (Nat.mod_eq_of_lt (hp shape List.prefix_rfl)).symm.trans hm, hb⟩

theorem refused_of_overflows (hf : Fits shape) (h : ofData shape data = .ok t)
    (ho : Overflows shape) : Refused t.encode := by
  obtain ⟨-, rfl⟩ := ofData_eq_ok.mp h
  obtain ⟨l, hl, ho⟩ := ho
  refine refused_iff.mpr fun u hu he => ?_
  obtain ⟨hs, -, -⟩ := (decode_header_eq_ok hf).mp (decode_eq_ok_iff.mpr ⟨hu, he⟩)
  exact ho.not_gt (hu.products l (hs ▸ hl))

theorem consistent_iff (hf : Fits shape) (hb : data.length * 4 < wordSize) :
    Consistent shape data ↔ ¬(shape.prod % wordSize = data.length ∧ Overflows shape) := by
  have hl : data.length < wordSize := by omega
  constructor
  case mp =>
    rintro hc ⟨hm, ho⟩
    have ht : ofData shape data = .ok ⟨shape, data⟩ := ofData_eq_ok.mpr ⟨hm, rfl⟩
    exact (returns_iff_not_overflows hf hb ht).mp (hc.returns _ ht) ho
  case mpr =>
    intro hn
    have ho {t} (ht : ofData shape data = .ok t) : ¬Overflows shape :=
      fun ho => hn ⟨(ofData_eq_ok.mp ht).left, ho⟩
    refine ⟨⟨fun ⟨t, ht⟩ => ?_, fun hp => ?_⟩, fun t ht => ?_⟩
    case refine_1 =>
      obtain ⟨hm, rfl⟩ := ofData_eq_ok.mp ht
      exact (returns_iff_recordable.mp <| (returns_iff_not_overflows hf hb ht).mpr (ho ht)).count
    case refine_2 => exact ⟨_, ofData_eq_ok.mpr ⟨hp ▸ Nat.mod_eq_of_lt (hp ▸ hl), rfl⟩⟩
    case refine_3 => exact (returns_iff_not_overflows hf hb ht).mpr (ho ht)

theorem guarded_eq_none {α : Type} {x : α} : guarded shape x = none ↔ Overflows shape := by
  rw [guarded, Option.map_eq_none_iff, overflows_iff]

theorem guarded_eq_some {α : Type} {x y : α} :
    guarded shape x = some y ↔ ¬Overflows shape ∧ x = y := by
  rw [overflows_iff, guarded, Option.map_eq_some_iff, ← ne_eq, Option.ne_none_iff_exists']
  simp

-- Of all shapes and data that fit into memory, a tensor is made of those whose sizes agree modulo
-- `2 ^ 64`. It is read again, and given back by a queue that has written it, exactly if no product
-- of dimensions from the left leaves 64 bits. So making and reading agree but for the shapes that
-- leave them and are accepted. A build with overflow checks breaks off at all shapes that leave
-- them, and of the tensors that are made otherwise it makes those that are read again.
theorem shapes_agree_iff (hr : shape.length < 2 ^ 32) (hd : ∀ d ∈ shape, d < wordSize)
    (hb : data.length * 4 < wordSize) :
    ((∃ t, ofData shape data = .ok t) ↔ shape.prod % wordSize = data.length) ∧
    (∀ t, ofData shape data = .ok t → (t.Returns ↔ ¬Overflows shape) ∧
      ∀ (b : Backlog Tensor Bytes) (u : Tensor), b.threshold ≤ b.size + 1 →
        let popped :=
          (((fun b => (b.pop medium).2)^[b.size] ((b.push medium t).push medium u)).pop medium).1
        (¬Overflows shape → popped = .ok (some t)) ∧
        (Overflows shape → ∃ f, popped = .error (.invalidTensor f))) ∧
    (Consistent shape data ↔ ¬(shape.prod % wordSize = data.length ∧ Overflows shape)) ∧
    (ofData? shape data = none ↔ Overflows shape) ∧
    (∀ t, ofData? shape data = some (.ok t) ↔ ofData shape data = .ok t ∧ t.Returns) := by
  have hf : Fits shape := ⟨hr, hd⟩
  refine ⟨by simp [ofData_eq_ok], fun t ht => ⟨returns_iff_not_overflows hf hb ht, ?_⟩,
    consistent_iff hf hb, guarded_eq_none, fun t => ?_⟩
  case refine_1 =>
    intro b u hq popped
    have hp : popped = (medium.read t.encode).map some := Backlog.pop_spilled rfl hq
    constructor
    case left =>
      intro hn
      have hr := returns_iff_read.mp <| (returns_iff_not_overflows hf hb ht).mpr hn
      rw [hp, hr]
      rfl
    case right =>
      intro ho
      have ⟨f, hr⟩ := refused_of_overflows hf ht ho
      exact ⟨f, by rw [hp, hr]; rfl⟩
  case refine_2 =>
    rw [ofData?, guarded_eq_some, and_comm]
    exact and_congr_right fun ht => (returns_iff_not_overflows hf hb ht).symm

-- A dimension of zero at the front keeps all products small.
theorem empty_front_returns :
    let t : Tensor := ⟨[0, 2 ^ 32, 2 ^ 32], []⟩
    t.shape.length < 2 ^ 32 ∧ (∀ d ∈ t.shape, d < wordSize) ∧ t.data.length * 4 < wordSize ∧
      ofData t.shape t.data = .ok t ∧ t.Returns ∧
      ((((Backlog.empty 0).push medium t).push medium t).pop medium).1 = .ok (some t) := by
  intro t
  have hd : ∀ d ∈ t.shape, d < wordSize := by decide
  have ht : ofData t.shape t.data = .ok t := by decide
  have hn : ¬Overflows t.shape := by decide
  have hl : t.data.length * 4 < wordSize := by decide
  have ⟨_, h, _, _, _⟩ := shapes_agree_iff (by decide) hd hl
  have ⟨hr, hq⟩ := h t ht
  exact ⟨by decide, hd, hl, ht, hr.mpr hn, (hq (.empty 0) t (by decide)).left hn⟩

-- The first of these shapes has no place for its data, as its product is zero modulo `2 ^ 64`. The
-- second one has, but is lost. A build with overflow checks breaks off at either.
theorem overflowing_shapes_made :
    let t : Tensor := ⟨[2 ^ 32, 2 ^ 32], []⟩
    let u : Tensor := ⟨[2 ^ 32, 2 ^ 32, 0], []⟩
    (ofData t.shape t.data = .ok t ∧ t.shape.prod ≠ t.data.length ∧ ¬Consistent t.shape t.data) ∧
      (ofData u.shape u.data = .ok u ∧ u.shape.prod = u.data.length ∧ ¬u.Returns ∧
        ¬Consistent u.shape u.data) ∧
      ofData? t.shape t.data = none ∧ ofData? u.shape u.data = none := by
  intro t u
  have hf : Fits t.shape := ⟨by decide, by decide⟩
  have hf' : Fits u.shape := ⟨by decide, by decide⟩
  have hu : ofData u.shape u.data = .ok u := by decide
  have hr : ¬u.Returns := fun h =>
    (returns_iff_not_overflows hf' (by decide) hu).mp h (by decide)
  have hc : ¬Consistent t.shape t.data := fun h =>
    (consistent_iff hf (by decide)).mp h ⟨by decide, by decide⟩
  exact ⟨⟨by decide, by decide, hc⟩, ⟨hu, by decide, hr, fun h => hr (h.returns u hu)⟩,
    guarded_eq_none.mpr (by decide), guarded_eq_none.mpr (by decide)⟩

end Tensor
end Inference
