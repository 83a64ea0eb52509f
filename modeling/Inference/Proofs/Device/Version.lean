import Inference.Device.Host
import Mathlib.Data.Prod.Lex
import Mathlib.Tactic

/-!
The order of the versions of operating systems. A version is written as a decimal with two places
for the minor number, and the decimals are in the order of the releases, so that 10.9 comes before
10.15. Minor numbers above 99 are not told apart.
-/

namespace Inference

namespace Decimal

variable {whole fraction : List Char}

def value (d : Decimal) : ℚ := d.digits / 10 ^ d.places

theorem value_lt_iff {m n places : ℕ} : value ⟨m, places⟩ < value ⟨n, places⟩ ↔ m < n := by
  have hp : (0 : ℚ) < 10 ^ places := by positivity
  rw [value, value, div_lt_div_iff_of_pos_right hp, Nat.cast_lt]

theorem value_inj {m n places : ℕ} : value ⟨m, places⟩ = value ⟨n, places⟩ ↔ m = n := by
  have hp : (10 : ℚ) ^ places ≠ 0 := by positivity
  rw [value, value, div_left_inj' hp, Nat.cast_inj]

theorem ofParts?_eq_some (hn : whole ≠ []) (hw : ∀ c ∈ whole, c.isDigit)
    (hf : ∀ c ∈ fraction, c.isDigit) : ofParts? whole fraction =
      some ⟨Nat.ofDigitChars 10 (whole ++ fraction) 0, fraction.length⟩ := by
  have hd : (whole ++ fraction).all Char.isDigit :=
    List.all_eq_true.mpr (List.forall_mem_append.mpr ⟨hw, hf⟩)
  rw [ofParts?, if_pos ⟨List.append_ne_nil_of_left_ne_nil hn _, hd⟩]

theorem dot_notMem {s : List Char} (h : ∀ c ∈ s, c.isDigit) : '.' ∉ s :=
  fun hm => absurd (h _ hm) (by decide)

theorem ofText?_of_digits (hn : whole ≠ []) (hw : ∀ c ∈ whole, c.isDigit)
    (hf : ∀ c ∈ fraction, c.isDigit) : ofText? (whole ++ '.' :: fraction) =
      some ⟨Nat.ofDigitChars 10 (whole ++ fraction) 0, fraction.length⟩ := by
  rw [ofText?, List.splitOn_append_cons_self_of_not_mem (dot_notMem hw),
    List.splitOn_eq_singleton (dot_notMem hf)]
  exact ofParts?_eq_some hn hw hf

end Decimal

namespace OsVersion

theorem digits_toDigits (n : ℕ) : ∀ c ∈ Nat.toDigits 10 n, c.isDigit :=
  fun _ => Nat.isDigit_of_mem_toDigits (by decide) (by decide)

theorem digits_twoPlaces (n : ℕ) : ∀ c ∈ twoPlaces n, c.isDigit := by
  intro c hc
  obtain hc | hc := List.mem_append.mp hc
  · rw [List.eq_of_mem_replicate hc]
    decide
  · exact digits_toDigits n c hc

theorem length_twoPlaces {n : ℕ} (h : n < 100) : (twoPlaces n).length = 2 := by
  have hl : (Nat.toDigits 10 n).length ≤ 2 :=
    (Nat.length_toDigits_le_iff (by decide) (by decide)).mpr h
  rw [twoPlaces, List.length_leftpad]
  exact max_eq_left hl

-- The zero before a single digit takes up a place and adds nothing.
theorem ofDigitChars_twoPlaces {n : ℕ} (h : n < 100) (init : ℕ) :
    Nat.ofDigitChars 10 (twoPlaces n) init = init * 100 + n := by
  have hz : Nat.ofDigitChars 10 (twoPlaces n) 0 = n := by
    rw [twoPlaces, List.leftpad, Nat.ofDigitChars_append, Nat.ofDigitChars_replicate_zero,
      Nat.mul_zero, Nat.ofDigitChars_ten_toDigits]
  rw [Nat.ofDigitChars_eq_ofDigitChars_zero, length_twoPlaces h, hz, Nat.mul_comm]

def hundredths (v : OsVersion) : ℕ := v.major * 100 + v.minor

-- What is written is the version in hundredths.
theorem ofText?_text {v : OsVersion} (h : v.minor < 100) :
    Decimal.ofText? v.text = some ⟨v.hundredths, 2⟩ := by
  rw [text, Decimal.ofText?_of_digits Nat.toDigits_ne_nil (digits_toDigits _) (digits_twoPlaces _),
    Nat.ofDigitChars_append, Nat.ofDigitChars_ten_toDigits, ofDigitChars_twoPlaces h,
    length_twoPlaces h, hundredths]

-- The digits of a number of 32 bits. Zeros may stand before the others.
structure Spells (ds : List Char) (n : ℕ) : Prop where
  ne_nil : ds ≠ []
  digits : ∀ c ∈ ds, c.isDigit
  value  : Nat.ofDigitChars 10 ds 0 = n
  bound  : n < 2 ^ 32

inductive Number : List Char → ℕ → Prop
  | plain {ds n} : Spells ds n → Number ds n
  | plus {ds n} : Spells ds n → Number ('+' :: ds) n

-- What stands between the dots of a text, without the blanks at its ends.
structure Components (s : List Char) (cs : List (List Char)) : Prop where
  ne_nil  : cs ≠ []
  dotless : ∀ c ∈ cs, '.' ∉ c
  joined  : ['.'].intercalate cs = Text.trim s

-- The numbers that a text gives for a version: the first component and the second one, which is 0
-- if it is missing.
inductive Gives (s : List Char) : ℕ → ℕ → Prop
  | major {a m} : Components s [a] → Number a m → Gives s m 0
  | minor {a b cs m n} : Components s (a :: b :: cs) → Number a m → Number b n → Gives s m n

-- The first component is not a number, or there is a second one that is not.
inductive Malformed (s : List Char) : Prop
  | major {a cs} : Components s (a :: cs) → (∀ n, ¬Number a n) → Malformed s
  | minor {a b cs} : Components s (a :: b :: cs) → (∀ n, ¬Number b n) → Malformed s

variable {s t : List Char} {m n : ℕ} {v : OsVersion}

theorem dot_notMem_of_mem_splitDots {c : List Char} (h : c ∈ splitDots s) : '.' ∉ c := by
  rw [splitDots] at h
  induction s generalizing c
  case nil => simp_all
  case cons x s hi =>
    rw [List.splitOn_cons_eq_if_modifyHead] at h
    split at h
    case isTrue =>
      obtain rfl | h := List.mem_cons.mp h
      · exact List.not_mem_nil
      · exact hi h
    case isFalse hx =>
      -- The letter comes before the first of the components that follow.
      obtain ⟨d, ds, hd⟩ := List.exists_cons_of_ne_nil (List.splitOn_ne_nil '.' s)
      simp only [hd, List.modifyHead_cons, List.mem_cons] at h hi
      obtain rfl | h := h
      · have hne : '.' ≠ x := fun h => hx (beq_iff_eq.mpr h.symm)
        exact List.not_mem_cons_of_ne_of_not_mem hne (hi (.inl rfl))
      · exact hi (.inr h)

theorem components_iff {cs : List (List Char)} :
    Components s cs ↔ splitDots (Text.trim s) = cs := by
  constructor
  case mp =>
    exact fun h => by rw [splitDots, ← h.joined, List.splitOn_intercalate _ h.dotless h.ne_nil]
  case mpr =>
    rintro rfl
    exact {
      ne_nil  := List.splitOn_ne_nil _ _
      dotless := fun _ => dot_notMem_of_mem_splitDots
      joined  := List.intercalate_splitOn _ }

theorem Components.unique {cs ds : List (List Char)} (h : Components s cs) (h' : Components s ds) :
    cs = ds :=
  (components_iff.mp h).symm.trans (components_iff.mp h')

theorem spells_iff {ds : List Char} : (if ds ≠ [] ∧ ds.all Char.isDigit then
      let n := ds.foldl (fun n c => n * 10 + (c.toNat - 48)) 0
      if n < Nat.pow 2 32 then some n else none
    else none) = some n ↔ Spells ds n := by
  have hf : ds.foldl (fun n c => n * 10 + (c.toNat - 48)) 0 = Nat.ofDigitChars 10 ds 0 := by
    simp [Nat.ofDigitChars_eq_foldl, Nat.mul_comm]
  simp only [hf]
  constructor
  case mp =>
    intro h
    split at h
    case isFalse => cases h
    case isTrue hd =>
    split at h
    case isFalse => cases h
    case isTrue hn =>
    cases h
    exact ⟨hd.left, List.all_eq_true.mp hd.right, rfl, hn⟩
  case mpr =>
    rintro ⟨hn, hd, rfl, hb⟩
    exact (if_pos ⟨hn, List.all_eq_true.mpr hd⟩).trans (if_pos hb)

theorem number?_eq_some : number? s = some n ↔ Number s n := by
  simp only [number?]
  split
  case h_1 r =>
    refine spells_iff.trans ⟨.plus, ?_⟩
    rintro (h | h)
    · exact absurd (h.digits _ (List.mem_cons_self ..)) (by decide)
    · exact h
  case h_2 hs =>
    refine spells_iff.trans ⟨.plain, ?_⟩
    rintro (h | h)
    · exact h
    · exact (hs _ rfl).elim

theorem malformed_iff : Malformed s ↔ ∀ m n, ¬Gives s m n := by
  constructor
  case mp =>
    intro hm m n hg
    rcases hm with ⟨hc, ha⟩ | ⟨hc, hb⟩ <;> rcases hg with ⟨hc', ha'⟩ | ⟨hc', ha', hb'⟩ <;>
      cases hc.unique hc'
    · exact ha _ ha'
    · exact ha _ ha'
    · exact hb _ hb'
  case mpr =>
    intro h
    match hs : splitDots (Text.trim s) with
    | []           => exact absurd hs (List.splitOn_ne_nil _ _)
    | [a]          =>
      have hc := components_iff.mpr hs
      exact .major hc fun m ha => h m 0 (.major hc ha)
    | a :: b :: cs =>
      have hc := components_iff.mpr hs
      by_cases ha : ∃ m, Number a m
      case pos => exact .minor hc fun n hb => ha.elim fun m ha => h m n (.minor hc ha hb)
      case neg => exact .major hc (not_exists.mp ha)

-- Of the minor number 99 is kept at most.
theorem parse?_eq_some : parse? s = some v ↔ ∃ m n, Gives s m n ∧ v = ⟨m, min n 99⟩ := by
  rw [parse?]
  split
  case h_1 hs => exact absurd hs (List.splitOn_ne_nil _ _)
  case h_2 a hs =>
    have hc : Components s [a] := components_iff.mpr hs
    simp only [Option.map_eq_some_iff, number?_eq_some]
    constructor
    case mp =>
      rintro ⟨m, ha, rfl⟩
      exact ⟨m, 0, .major hc ha, rfl⟩
    case mpr =>
      rintro ⟨m, n, hg, rfl⟩
      cases hg with
      | major h ha    => cases hc.unique h; exact ⟨m, ha, rfl⟩
      | minor h ha hb => cases hc.unique h
  case h_3 a b cs hs =>
    have hc : Components s (a :: b :: cs) := components_iff.mpr hs
    simp only [Option.bind_eq_bind, Option.bind_eq_some_iff, number?_eq_some]
    constructor
    case mp =>
      rintro ⟨m, ha, n, hb, h⟩
      cases h
      exact ⟨m, n, .minor hc ha hb, rfl⟩
    case mpr =>
      rintro ⟨m, n, hg, rfl⟩
      cases hg with
      | major h ha    => cases hc.unique h
      | minor h ha hb => cases hc.unique h; exact ⟨m, ha, n, hb, rfl⟩

theorem parse?_eq_none : parse? s = none ↔ Malformed s := by
  rw [malformed_iff, Option.eq_none_iff_forall_ne_some]
  constructor
  case mp  => exact fun h m n hg => h _ (parse?_eq_some.mpr ⟨m, n, hg, rfl⟩)
  case mpr => exact fun h v hv => have ⟨m, n, hg, _⟩ := parse?_eq_some.mp hv; h m n hg

theorem decimal?_of_parse? (h : parse? s = some v) : decimal? s = some ⟨v.hundredths, 2⟩ := by
  obtain ⟨m, n, -, rfl⟩ := parse?_eq_some.mp h
  have hm : min n 99 < 100 := by omega
  rw [decimal?, h]
  exact ofText?_text hm

theorem decimal?_of_gives (h : Gives s m n) : decimal? s = some ⟨m * 100 + min n 99, 2⟩ := by
  have hp : parse? s = some ⟨m, min n 99⟩ := parse?_eq_some.mpr ⟨m, n, h, rfl⟩
  rw [decimal?_of_parse? hp, hundredths]

theorem decimal?_eq_none : decimal? s = none ↔ Malformed s := by
  rw [← parse?_eq_none]
  cases h : parse? s
  case none   => simp [decimal?, h]
  case some v => simp [decimal?_of_parse? h]

-- What stands after the second component is not looked at.
theorem decimal?_congr {a b : List Char} {cs ds : List (List Char)}
    (hs : Components s (a :: b :: cs)) (ht : Components t (a :: b :: ds)) :
    decimal? s = decimal? t := by
  have hp : parse? s = parse? t := by
    rw [parse?, components_iff.mp hs, parse?, components_iff.mp ht]
  rw [decimal?, decimal?, hp]

-- The minor number does not reach the places of the major one.
theorem hundredths_lt_iff {a b c d : ℕ} (hb : b < 100) (hd : d < 100) :
    a * 100 + b < c * 100 + d ↔ toLex (a, b) < toLex (c, d) := by
  rw [Prod.Lex.toLex_lt_toLex]
  omega

theorem hundredths_inj {a b c d : ℕ} (hb : b < 100) (hd : d < 100) :
    a * 100 + b = c * 100 + d ↔ (a, b) = (c, d) := by
  rw [Prod.mk.injEq]
  omega

theorem value_hundredths (m n : ℕ) : Decimal.value ⟨m * 100 + n, 2⟩ = m + n / 100 := by
  simp only [Decimal.value]
  push_cast
  ring

-- The decimals of two texts are in the order of their numbers, the minor ones up to 99. A text has
-- no decimal exactly if one of its first two components is not a number, and the decimal hangs on
-- these two alone. Versions are compared by the numbers nearest to the decimals.
theorem releases_in_order :
    (∀ s t m n m' n', Gives s m n → Gives t m' n' → ∃ x y, decimal? s = some x ∧
      decimal? t = some y ∧ x.value = m + (min n 99 : ℕ) / 100 ∧
      (x.value < y.value ↔ toLex (m, min n 99) < toLex (m', min n' 99)) ∧
      (x.value = y.value ↔ (m, min n 99) = (m', min n' 99))) ∧
    (∀ s, single? s = none ↔ Malformed s) ∧
    (∀ s x, single? s = some x →
      ∃ m n d, Gives s m n ∧ decimal? s = some d ∧ x = d.nearest) ∧
    ∀ s t a b cs ds, Components s (a :: b :: cs) → Components t (a :: b :: ds) →
      decimal? s = decimal? t := by
  refine ⟨fun s t m n m' n' hs ht => ?_, fun s => ?_, fun s x hx => ?_,
    fun _ _ _ _ _ _ => decimal?_congr⟩
  case refine_1 =>
    have hn : min n 99 < 100 := by omega
    have hn' : min n' 99 < 100 := by omega
    refine ⟨_, _, decimal?_of_gives hs, decimal?_of_gives ht, value_hundredths .., ?_, ?_⟩
    · exact Decimal.value_lt_iff.trans (hundredths_lt_iff hn hn')
    · exact Decimal.value_inj.trans (hundredths_inj hn hn')
  case refine_2 => rw [single?, Option.map_eq_none_iff, decimal?_eq_none]
  case refine_3 =>
    obtain ⟨d, hd, rfl⟩ := Option.map_eq_some_iff.mp hx
    obtain ⟨v, hv, -⟩ := Option.bind_eq_some_iff.mp hd
    obtain ⟨m, n, hg, -⟩ := parse?_eq_some.mp hv
    exact ⟨m, n, d, hg, hd, rfl⟩

theorem nine_before_fifteen :
    let s := "10.9".toList
    let t := " +10.015.7\n".toList
    let u := "+10.015".toList
    Gives s 10 9 ∧ Gives t 10 15 ∧ (∃ x, single? s = some x) ∧
      (∃ x y, decimal? s = some x ∧ decimal? t = some y ∧ x.value < y.value) ∧
      Components t ["+10".toList, "015".toList, "7".toList] ∧
      Components u ["+10".toList, "015".toList] ∧ decimal? t = decimal? u ∧
      single? "10.".toList = none := by
  intro s t u
  have hn {l : List Char} {n : ℕ} (h : number? l = some n) : Number l n := number?_eq_some.mp h
  have hcs : Components s ["10".toList, "9".toList] := components_iff.mpr (by decide)
  have hct : Components t ["+10".toList, "015".toList, "7".toList] := components_iff.mpr (by decide)
  have hcu : Components u ["+10".toList, "015".toList] := components_iff.mpr (by decide)
  have hs : Gives s 10 9 := .minor hcs (hn (by decide)) (hn (by decide))
  have ht : Gives t 10 15 := .minor hct (hn (by decide)) (hn (by decide))
  obtain ⟨ho, hr, -, hc⟩ := releases_in_order
  obtain ⟨x, y, hx, hy, -, hlt, -⟩ := ho _ _ _ _ _ _ hs ht
  have hd : single? s = some x.nearest := by rw [single?, hx, Option.map_some]
  have hcm : Components "10.".toList ["10".toList, []] := components_iff.mpr (by decide)
  have hm : Malformed "10.".toList := .minor hcm fun n h =>
    absurd (number?_eq_some.mpr h) (by simp [number?])
  exact ⟨hs, ht, ⟨_, hd⟩, ⟨x, y, hx, hy, hlt.mpr (by decide)⟩, hct, hcu, hc _ _ _ _ _ _ hct hcu,
    (hr _).mpr hm⟩

end OsVersion
end Inference
