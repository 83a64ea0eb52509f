import Mathlib.Tactic
import Inference.Json.Page
import Inference.Json.Numeral

/-!
Integer literals. An integer of 64 bits, signed or unsigned, is written so that it is read back as
that integer, and no literal is read as an integer beyond those.
-/

namespace Inference.Json

-- The integers that are kept as integers.
def Fits (n : Int) : Prop := -2 ^ 63 ≤ n ∧ n < 2 ^ 64

namespace Numeral

-- What stands after a number, when the number ends there.
def Stops (r : List Char) : Prop :=
  ∀ c ∈ r.head?, c.isDigit = false ∧ c ≠ '.' ∧ c ≠ 'e' ∧ c ≠ 'E'

theorem Stops.nil : Stops [] := by simp [Stops]

theorem Stops.cons {c : Char} (r : List Char) (h : c.isDigit = false)
    (h' : c ≠ '.' ∧ c ≠ 'e' ∧ c ≠ 'E') : Stops (c :: r) := by
  rintro _ ⟨⟩
  exact ⟨h, h'⟩

section

variable {s r : List Char}

theorem digits_append (hs : ∀ c ∈ s, c.isDigit) (hr : Stops r) :
    digits (s ++ r) = (s.map (·.toNat - 48), r) := by
  induction s with
  | nil =>
    cases r with
    | nil      => rfl
    | cons c r => simp [digits, digit?, (hr c rfl).1]
  | cons c s ih =>
    obtain ⟨hc, hs⟩ := List.forall_mem_cons.1 hs
    simp [digits, digit?, hc, ih hs]

theorem readFraction_of_stops (hr : Stops r) : readFraction r = some ([], r) := by
  unfold readFraction
  split
  case h_1 => exact absurd rfl (hr _ rfl).2.1
  case h_2 => rfl

theorem readExponent_of_stops (hr : Stops r) : readExponent r = some (none, r) := by
  cases r with
  | nil      => rfl
  | cons c r => simp [readExponent, (hr c rfl).2.2]

end

-- The number that digits stand for only grows with each of them.
theorem le_ofDigitChars (s : List Char) (n : Nat) : n ≤ Nat.ofDigitChars 10 s n := by
  rw [Nat.ofDigitChars_eq_ofDigitChars_zero]
  have := Nat.le_mul_of_pos_left n (Nat.pow_pos (n := s.length) (show 0 < 10 by decide))
  omega

-- All digits are gathered where the number stays below the limit.
theorem gather_map {limit : Nat} (s : List Char) {n : Nat}
    (h : Nat.ofDigitChars 10 s n < limit) :
    gather limit n (s.map (·.toNat - 48)) = (Nat.ofDigitChars 10 s n, []) := by
  induction s generalizing n with
  | nil         => rfl
  | cons c s ih =>
    rw [Nat.ofDigitChars_cons, Nat.mul_comm] at h ⊢
    exact (if_pos ((le_ofDigitChars s _).trans_lt h)).trans (ih h)

theorem gather_lt {limit n : Nat} (ds : List Nat) (h : n < limit) :
    (gather limit n ds).1 < limit := by
  induction ds generalizing n with
  | nil          => exact h
  | cons d ds ih =>
    rw [gather]
    split
    case isTrue h'  => exact ih h'
    case isFalse => exact h

-- A zero leads the digits of no number but zero.
theorem head_toDigits {n : Nat} (hn : 0 < n) : '0' ∉ (Nat.toDigits 10 n).head? := by
  induction n using Nat.strong_induction_on with
  | _ n ih =>
    rw [Nat.toDigits_eq_if (by decide)]
    split
    case isTrue h =>
      have hd : ∀ n < 10, 0 < n → n.digitChar ≠ '0' := by decide
      simpa using hd n h hn
    case isFalse h =>
      rw [List.head?_append_of_ne_nil _ Nat.toDigits_ne_nil]
      exact ih (n / 10) (by omega) (by omega)

theorem readWhole_toDigits (n : Nat) {r : List Char} (hr : Stops r) :
    readWhole (Nat.toDigits 10 n ++ r) = some ((Nat.toDigits 10 n).map (·.toNat - 48), r) := by
  have hd : ∀ c ∈ Nat.toDigits 10 n, c.isDigit :=
    fun c hc => Nat.isDigit_of_mem_toDigits (by decide) (by decide) hc
  rw [readWhole, digits_append hd hr]
  obtain rfl | hn := Nat.eq_zero_or_pos n
  · rfl
  have h0 := head_toDigits hn
  split
  case h_1 h => simp at h
  case h_2 ds _ h =>
    -- The first digit would be that of a leading zero.
    cases hs : Nat.toDigits 10 n with
    | nil      => exact absurd hs Nat.toDigits_ne_nil
    | cons c s =>
      rw [hs] at h h0 hd
      have hc := Char.isDigit_iff_toNat.1 (hd c (List.mem_cons_self ..))
      simp only [List.map_cons, Prod.mk.injEq, List.cons.injEq] at h
      have hz : c.toNat = '0'.toNat := Nat.le_antisymm (Nat.sub_eq_zero_iff_le.1 h.1.1) hc.1
      exact absurd (Char.toNat_inj.1 hz) (by simpa using h0)
  case h_3 h => rw [h]

-- What an integer is written as.
def literal (n : Int) : List Char := (if n < 0 then ['-'] else []) ++ Nat.toDigits 10 n.natAbs

theorem literal_eq_cons (n : Int) : ∃ c s, literal n = c :: s ∧ (c.isDigit ∨ c = '-') := by
  by_cases hn : n < 0
  case pos => exact ⟨'-', Nat.toDigits 10 n.natAbs, by simp [literal, hn], .inr rfl⟩
  case neg =>
    cases hs : Nat.toDigits 10 n.natAbs with
    | nil      => exact absurd hs Nat.toDigits_ne_nil
    | cons c s =>
      have hc : c ∈ Nat.toDigits 10 n.natAbs := hs ▸ List.mem_cons_self ..
      exact ⟨c, s, by simp [literal, hn, hs],
        .inl (Nat.isDigit_of_mem_toDigits (by decide) (by decide) hc)⟩

theorem read_literal (n : Int) {r : List Char} (hr : Stops r) :
    read (literal n ++ r) =
      some (⟨decide (n < 0), (Nat.toDigits 10 n.natAbs).map (·.toNat - 48), [], none⟩, r) := by
  by_cases hn : n < 0
  case pos =>
    simp [read, literal, hn, readWhole_toDigits _ hr, readFraction_of_stops hr,
      readExponent_of_stops hr]
  case neg =>
    rw [literal, if_neg hn, List.nil_append, read, decide_eq_false hn]
    · simp [readWhole_toDigits _ hr, readFraction_of_stops hr, readExponent_of_stops hr]
    · intro s h
      have hm := congrArg List.head? h
      rw [List.head?_append_of_ne_nil _ Nat.toDigits_ne_nil] at hm
      exact absurd (Nat.isDigit_of_mem_toDigits (by decide) (by decide) (List.mem_of_head? hm))
        (by decide)

theorem amount?_literal {n : Int} (h : Fits n) :
    amount? ⟨decide (n < 0), (Nat.toDigits 10 n.natAbs).map (·.toNat - 48), [], none⟩ =
      some (.int n) := by
  obtain ⟨hl, hu⟩ := h
  have hn : Nat.ofDigitChars 10 (Nat.toDigits 10 n.natAbs) 0 < Nat.pow 2 64 := by
    rw [Nat.ofDigitChars_ten_toDigits]
    show n.natAbs < 2 ^ 64
    omega
  simp only [amount?, gather_map _ hn, Nat.ofDigitChars_ten_toDigits, and_self, if_true]
  by_cases h0 : n < 0
  case pos =>
    have hs : ¬ (n.natAbs = 0 ∨ Nat.pow 2 63 < n.natAbs) := by
      show ¬ (n.natAbs = 0 ∨ 2 ^ 63 < n.natAbs)
      omega
    rw [if_neg (by simpa using h0), if_neg hs]
    congr
    omega
  case neg =>
    rw [if_pos (by simpa using h0)]
    congr
    omega

-- Below the limit of 64 bits a literal stays an integer; a negative one has to reach `-2 ^ 63`.
theorem fits_of_amount? {l : Numeral} {n : Int} (h : l.amount? = some (.int n)) : Fits n := by
  have hg : (gather (Nat.pow 2 64) 0 l.whole).1 < 2 ^ 64 := gather_lt l.whole (by decide)
  simp only [amount?] at h
  split at h
  case isFalse => simp at h
  split at h
  case isTrue =>
    cases h
    exact ⟨by omega, by omega⟩
  split at h
  case isTrue => simp at h
  case isFalse hs =>
    change ¬ (_ ∨ 2 ^ 63 < _) at hs
    cases h
    exact ⟨by omega, by omega⟩

end Numeral
end Inference.Json
