import Inference.Bytes
import Mathlib.Tactic.Ring

/-!
Integers of a fixed width stand for themselves: what is written is read, and nothing else is.
-/

namespace Inference.Bytes

variable {width n : ℕ} {bs rest : Bytes}

@[simp]
theorem length_ofNat (width n : ℕ) : (ofNat width n).length = width := by
  induction width generalizing n
  case zero       => rfl
  case succ w hi  => simp [ofNat, hi]

theorem toNat_ofNat (width n : ℕ) : toNat (ofNat width n) = n % 256 ^ width := by
  induction width generalizing n
  case zero => simp [ofNat, toNat, Nat.mod_one]
  case succ w hi =>
    rw [ofNat, toNat, hi, UInt8.toNat_ofNat', Nat.pow_succ' (m := 256), Nat.mod_mul (x := n)]

theorem toNat_lt (bs : Bytes) : toNat bs < 256 ^ bs.length := by
  induction bs
  case nil => simp [toNat]
  case cons b bs hi =>
    have hb := b.toNat_lt
    rw [toNat, List.length_cons, Nat.pow_succ]
    omega

theorem ofNat_toNat (bs : Bytes) : ofNat bs.length (toNat bs) = bs := by
  induction bs
  case nil => rfl
  case cons b bs hi =>
    have hb := b.toNat_lt
    have hd : (b.toNat + 256 * toNat bs) / 256 = toNat bs := by omega
    have hm : UInt8.ofNat (b.toNat + 256 * toNat bs) = b := by
      apply UInt8.toNat_inj.mp
      rw [UInt8.toNat_ofNat']
      omega
    rw [List.length_cons, ofNat, toNat, hd, hm, hi]

theorem take?_eq_some :
    take? width bs = some (n, rest) ↔ n < 256 ^ width ∧ bs = ofNat width n ++ rest := by
  simp only [take?, List.splitAt_eq]
  constructor
  case mp =>
    intro h
    split at h
    case isFalse => cases h
    case isTrue hl =>
      cases h
      have hn := toNat_lt (bs.take width)
      have ht := ofNat_toNat (bs.take width)
      rw [hl] at hn ht
      exact ⟨hn, by rw [ht, List.take_append_drop]⟩
  case mpr =>
    rintro ⟨hn, rfl⟩
    have hl : ((ofNat width n ++ rest).take width) = ofNat width n := by
      rw [List.take_append_of_le_length (by simp), List.take_of_length_le (by simp)]
    have hd : ((ofNat width n ++ rest).drop width) = rest := by
      rw [List.drop_append_of_le_length (by simp), List.drop_of_length_le (by simp),
        List.nil_append]
    rw [hl, hd, if_pos (length_ofNat ..), toNat_ofNat, Nat.mod_eq_of_lt hn]

end Inference.Bytes
