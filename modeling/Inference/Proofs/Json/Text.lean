import Mathlib.Tactic
import Inference.Json.Page
import Inference.Json.Doc

/-!
Quoted texts. What the writer makes of a text is read back as the text: a character stands for
itself or is escaped, and either way it is read as its own code unit. A character is no surrogate,
so joining the units changes none of them.
-/

namespace Inference.Json.Doc

open Page (escape hexDigit quote)

theorem unit?_hexDigit : ∀ a < 16, ∀ b < 16,
    unit? '0' '0' (hexDigit a) (hexDigit b) = some (a * 16 + b) := by decide

-- A character that needs no escape.
theorem units_plain (acc : List Nat) {c : Char} (s : List Char) (hq : c ≠ '"') (hb : c ≠ '\\')
    (hc : ¬ c.toNat < 0x20) : units acc (c :: s) = units (c.toNat :: acc) s := by
  rw [units.eq_def]
  split
  case h_1 h => exact absurd (List.cons.inj h).1 hq
  case h_2 h => exact absurd (List.cons.inj h).1 hb
  case h_3 h => exact absurd (List.cons.inj h).1 hb
  case h_4 h =>
    obtain ⟨rfl, rfl⟩ := List.cons.inj h
    exact if_neg hc
  case h_5 h => exact absurd h (List.cons_ne_nil _ _)

theorem units_escape (acc : List Nat) (c : Char) (s : List Char) :
    units acc (escape c ++ s) = units (c.toNat :: acc) s := by
  rw [escape]
  split
  case isTrue h => subst h; simp [units, escape?]
  split
  case isTrue h => subst h; simp [units, escape?]
  split
  case isTrue h => simp [units, escape?, h]
  split
  case isTrue h => simp [units, escape?, h]
  split
  case isTrue h => subst h; simp [units, escape?]
  split
  case isTrue h => subst h; simp [units, escape?]
  split
  case isTrue h => subst h; simp [units, escape?]
  split
  case isTrue h =>
    have hu := unit?_hexDigit (c.toNat / 16) (by omega) (c.toNat % 16) (by omega)
    simp only [List.cons_append, List.nil_append, units, hu]
    rw [Nat.div_add_mod' c.toNat 16]
  case isFalse hq hb _ _ _ _ _ hc => exact units_plain acc s hq hb hc

theorem units_flatMap_escape (s r : List Char) (acc : List Nat) :
    units acc (s.flatMap escape ++ '"' :: r) = some ((s.map Char.toNat).reverse ++ acc, r) := by
  induction s generalizing acc with
  | nil         => simp [units]
  | cons c s ih => simp [List.flatMap_cons, List.append_assoc, units_escape, ih]

theorem join_toNat (acc s : List Char) :
    join acc (s.map Char.toNat) = some (s.reverse ++ acc) := by
  induction s generalizing acc with
  | nil         => rfl
  | cons c s ih =>
    have hc : c.toNat < 0xD800 ∨ 0xDFFF < c.toNat ∧ c.toNat < 0x110000 := c.valid
    unfold join
    rw [List.map_cons]
    simp only
    rw [if_neg (by omega), if_neg (by omega), Char.ofNat_toNat, ih]
    simp

-- What is written between the quotes is read as the text, up to the closing quote.
theorem text_quoted (s : String) (r : List Char) :
    text (s.toList.flatMap escape ++ '"' :: r) = some (some s, r) := by
  simp [text, units_flatMap_escape, ← List.map_reverse, join_toNat]

end Inference.Json.Doc
