import Inference.Proofs.Bytes
import Inference.Tensor.Record
import Mathlib.Algebra.BigOperators.Group.List.Basic

/-!
The records of tensors. A record is read if and only if it is what is written for some tensor, so
each tensor that has a record has one only, and a record with a part missing, or with more behind
it, is none.
-/

namespace Inference.Tensor

variable {shape : List ℕ} {data : List Single} {bs rest : Bytes} {rank n k : ℕ} {t : Tensor}

theorem foldlM_eq_some (hk : k < wordSize) :
    shape.foldlM (fun n d => if n * d < wordSize then some (n * d) else none) k = some n ↔
      (∀ l, l <+: shape → k * l.prod < wordSize) ∧ k * shape.prod = n := by
  induction shape generalizing k
  case nil => simp [hk]
  case cons d shape hi =>
    have hp (t : List ℕ) : k * (d :: t).prod = k * d * t.prod := by
      rw [List.prod_cons, mul_assoc]
    rw [List.foldlM_cons, hp]
    split
    case isTrue h =>
      refine (hi h).trans <| and_congr_left' ⟨fun hl l hp' => ?_, fun hl t ht => ?_⟩
      case refine_1 =>
        rcases List.prefix_cons_iff.mp hp' with rfl | ⟨t, rfl, ht⟩
        · simpa using hk
        · exact hp t ▸ hl t ht
      case refine_2 => exact hp t ▸ hl (d :: t) (List.prefix_cons_inj d |>.mpr ht)
    case isFalse h =>
      refine ⟨nofun, fun ⟨hl, _⟩ => (h ?_).elim⟩
      simpa using hl [d] (List.prefix_cons_inj d |>.mpr List.nil_prefix)

theorem checkedSize_eq_some : checkedSize shape = some n ↔
    (∀ l, l <+: shape → l.prod < wordSize) ∧ shape.prod = n := by
  simpa [checkedSize] using foldlM_eq_some (k := 1) (by decide)

theorem foldl_eq (shape : List ℕ) (hk : k < wordSize) :
    shape.foldl (fun n d => n * d % wordSize) k = k * shape.prod % wordSize := by
  induction shape generalizing k
  case nil => simp [Nat.mod_eq_of_lt hk]
  case cons d shape hi =>
    rw [List.foldl_cons, hi (Nat.mod_lt _ (by decide)), Nat.mod_mul_mod, List.prod_cons, mul_assoc]

theorem size_eq (shape : List ℕ) : size shape = shape.prod % wordSize := by
  simpa [size] using foldl_eq shape (k := 1) (by decide)

-- Below 64 bits the product is the same with and without the checks.
theorem size_of_checkedSize (h : checkedSize shape = some n) : size shape = n := by
  have ⟨hp, hn⟩ := checkedSize_eq_some.mp h
  subst hn
  rw [size_eq, Nat.mod_eq_of_lt (hp shape List.prefix_rfl)]

theorem readShape_eq_some : readShape rank bs = some (shape, rest) ↔
    shape.length = rank ∧ (∀ d ∈ shape, d < wordSize) ∧
      bs = shape.flatMap (Bytes.ofNat 8) ++ rest := by
  induction rank generalizing bs shape rest
  case zero =>
    simp only [readShape, Option.some.injEq, Prod.mk.injEq, List.length_eq_zero_iff]
    constructor
    case mp  => rintro ⟨rfl, rfl⟩; simp
    case mpr => rintro ⟨rfl, _, rfl⟩; simp
  case succ rank hi =>
    simp only [readShape, Option.bind_eq_bind, Option.bind_eq_some_iff, Prod.exists,
      Bytes.take?_eq_some, hi, Option.pure_def, Option.some.injEq, Prod.mk.injEq]
    constructor
    case mp =>
      rintro ⟨d, _, ⟨hd, rfl⟩, l, _, ⟨hl, hds, rfl⟩, rfl, rfl⟩
      exact ⟨by simp [hl], List.forall_mem_cons.mpr ⟨hd, hds⟩, by simp⟩
    case mpr =>
      rintro ⟨hl, hds, rfl⟩
      cases shape
      case nil => cases hl
      case cons d l =>
        have ⟨hd, hds⟩ := List.forall_mem_cons.mp hds
        exact ⟨d, l.flatMap (Bytes.ofNat 8) ++ rest, ⟨hd, by simp⟩, l, rest,
          ⟨Nat.succ.inj hl, hds, rfl⟩, rfl, rfl⟩

-- The bytes of an element.
def word (x : Single) : Bytes := Bytes.ofNat 4 x.bits.toNat

theorem length_words (data : List Single) : (data.flatMap word).length = data.length * 4 := by
  simp [List.length_flatMap, word]

theorem word_ofNat (hn : n < 256 ^ 4) : word ⟨.ofNat _ n⟩ = Bytes.ofNat 4 n := by
  have hn : n < 2 ^ Precision.single.width := hn
  rw [word, BitVec.toNat_ofNat, Nat.mod_eq_of_lt hn]

theorem readData_eq_some : readData n bs = some data ↔
    data.length = n ∧ ∃ rest, bs = data.flatMap word ++ rest := by
  induction n generalizing bs data
  case zero =>
    simp only [readData, Option.some.injEq, List.length_eq_zero_iff]
    constructor
    case mp  => rintro rfl; simp
    case mpr => rintro ⟨rfl, _⟩; rfl
  case succ n hi =>
    simp only [readData, Option.bind_eq_bind, Option.bind_eq_some_iff, Prod.exists,
      Bytes.take?_eq_some, hi, Option.pure_def, Option.some.injEq]
    constructor
    case mp =>
      rintro ⟨x, _, ⟨hx, rfl⟩, l, ⟨rfl, rest, rfl⟩, rfl⟩
      exact ⟨rfl, rest, by simp [word_ofNat hx]⟩
    case mpr =>
      rintro ⟨hl, rest, rfl⟩
      cases data
      case nil => cases hl
      case cons x l =>
        exact ⟨x.bits.toNat, _, ⟨x.bits.isLt, by simp [word]⟩, l, ⟨Nat.succ.inj hl, rest, rfl⟩,
          by simp⟩

-- The part of a record before the elements.
def header (shape : List ℕ) : Bytes :=
  Bytes.ofNat 1 version ++ Bytes.ofNat 4 shape.length ++ shape.flatMap (Bytes.ofNat 8)

theorem encode_eq (t : Tensor) : t.encode = header t.shape ++ t.data.flatMap word := rfl

-- The dimensions and their number fit into their places.
def Fits (shape : List ℕ) : Prop := shape.length < 2 ^ 32 ∧ ∀ d ∈ shape, d < wordSize

theorem version_header (shape : List ℕ) (bs : Bytes) : Bytes.take? 1 (header shape ++ bs) =
    some (version, Bytes.ofNat 4 shape.length ++ (shape.flatMap (Bytes.ofNat 8) ++ bs)) :=
  Bytes.take?_eq_some.mpr ⟨by decide, by simp [header]⟩

theorem rank_header (hs : Fits shape) (bs : Bytes) :
    Bytes.take? 4 (Bytes.ofNat 4 shape.length ++ bs) = some (shape.length, bs) :=
  Bytes.take?_eq_some.mpr ⟨hs.left, rfl⟩

theorem shape_header (hs : Fits shape) (bs : Bytes) :
    readShape shape.length (shape.flatMap (Bytes.ofNat 8) ++ bs) = some (shape, bs) :=
  readShape_eq_some.mpr ⟨rfl, hs.right, rfl⟩

-- A text of bytes that is read begins with the header of some shape.
theorem exists_header (h : decode bs = .ok t) :
    ∃ shape rest, Fits shape ∧ bs = header shape ++ rest := by
  rw [decode] at h
  split at h
  case h_1 => cases h
  case h_2 v bs' hv =>
    split at h
    case isTrue => cases h
    case isFalse hv' =>
      split at h
      case h_1 => cases h
      case h_2 shape rest hs =>
        simp only [Option.bind_eq_bind, Option.bind_eq_some_iff, Prod.exists,
          Bytes.take?_eq_some, readShape_eq_some] at hs hv
        obtain ⟨rank, _, ⟨hr, rfl⟩, rfl, hd, rfl⟩ := hs
        obtain ⟨_, rfl⟩ := hv
        obtain rfl : v = version := by simpa using hv'
        exact ⟨shape, rest, ⟨hr, hd⟩, by simp [header]⟩

-- A tensor that has a record: every number has its place, and the products of the dimensions, taken
-- from the left, and the bytes of the elements stay below 64 bits.
structure Recordable (t : Tensor) : Prop where
  fits     : Fits t.shape
  products : ∀ l, l <+: t.shape → l.prod < wordSize
  count    : t.shape.prod = t.data.length
  bytes    : t.data.length * 4 < wordSize

theorem recordable_iff : t.Recordable ↔ t.shape.length < 2 ^ 32 ∧ (∀ d ∈ t.shape, d < wordSize) ∧
    checkedSize t.shape = some t.data.length ∧ t.data.length * 4 < wordSize := by
  rw [checkedSize_eq_some]
  exact ⟨fun h => ⟨h.fits.left, h.fits.right, ⟨h.products, h.count⟩, h.bytes⟩,
    fun ⟨hr, hd, ⟨hp, hc⟩, hb⟩ => ⟨⟨hr, hd⟩, hp, hc, hb⟩⟩

instance : Decidable t.Recordable := decidable_of_iff _ recordable_iff.symm

theorem decode_header_eq_ok (hs : Fits shape) : decode (header shape ++ bs) = .ok t ↔
    t.shape = shape ∧ t.Recordable ∧ bs = t.data.flatMap word := by
  simp only [decode, version_header, rank_header hs, shape_header hs, ne_eq, not_true_eq_false,
    if_false, Option.bind_eq_bind, Option.bind_some]
  constructor
  case mp =>
    intro h
    split at h
    case h_1 => cases h
    case h_2 n hn =>
      have ⟨hp, hc⟩ := checkedSize_eq_some.mp hn
      split at h
      case isFalse => cases h
      case isTrue hb =>
        split at h
        case h_2 => cases h
        case h_1 data hd =>
          obtain ⟨rfl, rest, rfl⟩ := readData_eq_some.mp hd
          rw [ofData, if_pos (size_of_checkedSize hn)] at h
          cases h
          rw [List.length_append, length_words] at hb
          have hr : rest = [] := List.length_eq_zero_iff.mp (by omega)
          exact ⟨rfl, ⟨hs, hp, hc, hb.left⟩, by simp [hr]⟩
  case mpr =>
    rintro ⟨rfl, ht, rfl⟩
    have hn : checkedSize t.shape = some t.data.length :=
      checkedSize_eq_some.mpr ⟨ht.products, ht.count⟩
    have hd : readData t.data.length (t.data.flatMap word) = some t.data :=
      readData_eq_some.mpr ⟨rfl, [], by simp⟩
    simp only [hn, hd, length_words, ht.bytes, ofData, size_of_checkedSize hn, and_self, if_true]

theorem decode_eq_ok_iff : decode bs = .ok t ↔ t.Recordable ∧ t.encode = bs := by
  constructor
  case mp =>
    intro h
    have ⟨shape, rest, hs, hb⟩ := exists_header h
    subst hb
    obtain ⟨rfl, ht, rfl⟩ := (decode_header_eq_ok hs).mp h
    exact ⟨ht, rfl⟩
  case mpr =>
    rintro ⟨ht, rfl⟩
    exact (decode_header_eq_ok ht.fits).mpr ⟨rfl, ht, rfl⟩

theorem read_eq_ok_iff : medium.read bs = .ok t ↔ t.Recordable ∧ t.encode = bs := by
  rw [← decode_eq_ok_iff]
  simp only [medium]
  cases decode bs <;> simp [Except.mapError]

-- What is read is no record of a tensor.
def Refused (bs : Bytes) : Prop := ∃ f, medium.read bs = .error (.invalidTensor f)

theorem refused_iff : Refused bs ↔ ∀ t : Tensor, t.Recordable → t.encode ≠ bs := by
  have h : Refused bs ↔ ∀ t, medium.read bs ≠ .ok t := by
    simp only [Refused, medium]
    cases decode bs <;> simp [Except.mapError]
  simp [h, read_eq_ok_iff]

-- No record is the beginning of another one.
theorem encode_append_ne (ht : t.Recordable) {u : Tensor} (hu : u.Recordable)
    (h : u.encode = t.encode ++ rest) : rest = [] := by
  have hd := decode_eq_ok_iff.mpr ⟨hu, h⟩
  rw [encode_eq, List.append_assoc, decode_header_eq_ok ht.fits] at hd
  have ⟨hs, _, hd⟩ := hd
  have hc : u.data.length = t.data.length := by rw [← hu.count, hs, ht.count]
  have hl := congrArg List.length hd
  rw [List.length_append, length_words, length_words, hc] at hl
  exact List.length_eq_zero_iff.mp (by omega)

-- Reading undoes writing for exactly the tensors that have a record, writing undoes reading, and
-- all other bytes are refused.
theorem records_exact :
    (∀ t : Tensor, t.Recordable → ∃ bs, medium.write t = .ok bs ∧ medium.read bs = .ok t) ∧
    (∀ bs t, medium.read bs = .ok t → t.Recordable ∧ medium.write t = .ok bs) ∧
    (∀ bs, (∀ t : Tensor, t.Recordable → medium.write t ≠ .ok bs) → Refused bs) ∧
    -- bytes that are missing at the end, or too many
    (∀ t bs rest, t.Recordable → medium.write t = .ok (bs ++ rest) → rest ≠ [] → Refused bs) ∧
    (∀ t bs rest, t.Recordable → medium.write t = .ok bs → rest ≠ [] → Refused (bs ++ rest)) ∧
    -- another version
    (∀ v bs, v ≠ 1 → Refused (v :: bs)) ∧
    -- a shape that overflows, or that does not go with the bytes after it
    ∀ shape bs, Fits shape →
      (∃ l, l <+: shape ∧ wordSize ≤ l.prod) ∨ shape.prod * 4 ≠ bs.length →
      Refused (header shape ++ bs) := by
  have hw (t : Tensor) (bs : Bytes) : medium.write t = .ok bs ↔ t.encode = bs := by
    simp [medium]
  simp only [hw, read_eq_ok_iff, refused_iff, ne_eq]
  refine ⟨fun t ht => ⟨_, rfl, ht, rfl⟩, fun _ _ => id, fun _ => id, ?_, ?_, ?_, ?_⟩
  case refine_1 =>
    intro t bs rest ht he hr u hu h
    exact hr <| encode_append_ne hu ht (h ▸ he)
  case refine_2 =>
    intro t bs rest ht he hr u hu h
    exact hr <| encode_append_ne ht hu (he ▸ h)
  case refine_3 =>
    intro v bs hv u _ h
    exact hv (List.cons.inj h).left.symm
  case refine_4 =>
    intro shape bs hs hn u hu h
    have hd := decode_eq_ok_iff.mpr ⟨hu, h⟩
    obtain ⟨rfl, _, rfl⟩ := (decode_header_eq_ok hs).mp hd
    rcases hn with ⟨l, hl, hp⟩ | hn
    · exact hp.not_gt (hu.products l hl)
    · exact hn (by rw [length_words, hu.count])

-- Two NaNs keep their payloads.
theorem nan_record_read :
    let t : Tensor := ⟨[1, 2], [⟨0x7fc12345⟩, ⟨0xffa00001⟩]⟩
    let dimensions : Bytes := [1, 0, 0, 0, 0, 0, 0, 0, 2, 0, 0, 0, 0, 0, 0, 0]
    let bs : Bytes := [1, 2, 0, 0, 0] ++ dimensions ++ [0x45, 0x23, 0xc1, 0x7f, 1, 0, 0xa0, 0xff]
    t.Recordable ∧ medium.write t = .ok bs ∧ medium.read bs = .ok t ∧ Refused bs.dropLast ∧
      Refused (bs ++ [0]) ∧ Refused (9 :: bs.tail) ∧ Refused (header [2 ^ 40, 2 ^ 40, 0]) := by
  intro t dimensions bs
  have ht : t.Recordable := by decide
  have hw : medium.write t = .ok bs := congrArg Except.ok (by decide : t.encode = bs)
  have hd : medium.write t = .ok (bs.dropLast ++ [0xff]) := hw
  have ⟨hread, _, _, hshort, hlong, hversion, hshape⟩ := records_exact
  have ⟨bs', hw', hr⟩ := hread t ht
  obtain rfl : bs' = bs := Except.ok.inj (hw'.symm.trans hw)
  have hs : Fits [2 ^ 40, 2 ^ 40, 0] := ⟨by decide, by decide⟩
  exact ⟨ht, hw, hr, hshort t _ [0xff] ht hd (by decide), hlong t _ [0] ht hw (by decide),
    hversion 9 _ (by decide), hshape _ [] hs (.inl ⟨[2 ^ 40, 2 ^ 40], ⟨[0], rfl⟩, by decide⟩)⟩

end Inference.Tensor
