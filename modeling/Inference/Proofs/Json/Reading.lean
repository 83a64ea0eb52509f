import Mathlib.Tactic
import Inference.Proofs.Json.Text
import Inference.Proofs.Json.Numeral

/-!
Reading what was written. The lines of a value are read as the tree of that value, at any indent and
with anything behind them that does not continue a number: the recursion of the reader follows that
of the writer, and the length of the text is more fuel than is needed. Doubles are left out here,
since their literals need not be read as the same double.
-/

namespace Inference.Json

mutual

-- `p` holds of the value and of every value inside it.
def Every (p : Json → Prop) : Json → Prop
  | arr vs => p (arr vs) ∧ EveryItem p vs
  | obj fs => p (obj fs) ∧ EveryField p fs
  | v => p v

def EveryItem (p : Json → Prop) : List Json → Prop
  | [] => True
  | v :: vs => Every p v ∧ EveryItem p vs

def EveryField (p : Json → Prop) : List (String × Json) → Prop
  | [] => True
  | (_, v) :: fs => Every p v ∧ EveryField p fs

end

theorem everyItem_iff {p : Json → Prop} {vs : List Json} :
    EveryItem p vs ↔ ∀ v ∈ vs, Every p v := by
  induction vs with
  | nil          => simp [EveryItem]
  | cons v vs ih => simp [EveryItem, ih]

theorem everyField_iff {p : Json → Prop} {fs : List (String × Json)} :
    EveryField p fs ↔ ∀ f ∈ fs, Every p f.2 := by
  induction fs with
  | nil          => simp [EveryField]
  | cons f fs ih => simp [EveryField, ih]

mutual

theorem Every.imp₂ {p q t : Json → Prop} (h : ∀ v, p v → q v → t v) :
    (v : Json) → Every p v → Every q v → Every t v
  | null, hp, hq | bool _, hp, hq | int _, hp, hq | float _, hp, hq | str _, hp, hq => h _ hp hq
  | arr vs, hp, hq => ⟨h _ hp.1 hq.1, EveryItem.imp₂ h vs hp.2 hq.2⟩
  | obj fs, hp, hq => ⟨h _ hp.1 hq.1, EveryField.imp₂ h fs hp.2 hq.2⟩

theorem EveryItem.imp₂ {p q t : Json → Prop} (h : ∀ v, p v → q v → t v) :
    (vs : List Json) → EveryItem p vs → EveryItem q vs → EveryItem t vs
  | [], _, _ => trivial
  | v :: vs, hp, hq => ⟨Every.imp₂ h v hp.1 hq.1, EveryItem.imp₂ h vs hp.2 hq.2⟩

theorem EveryField.imp₂ {p q t : Json → Prop} (h : ∀ v, p v → q v → t v) :
    (fs : List (String × Json)) → EveryField p fs → EveryField q fs → EveryField t fs
  | [], _, _ => trivial
  | (_, v) :: fs, hp, hq => ⟨Every.imp₂ h v hp.1 hq.1, EveryField.imp₂ h fs hp.2 hq.2⟩

end

def proper : Json → Prop
  | int n => Fits n
  | obj fs => Entries.Sorted fs
  | _ => True

-- A value as values are kept: an integer has 64 bits, and an object has its fields in the order of
-- their names.
def Proper : Json → Prop := Every proper

def floatless : Json → Prop
  | float _ => False
  | _ => True

def Floatless : Json → Prop := Every floatless

def plain : Json → Prop
  | int n => Fits n
  | float _ => False
  | _ => True

-- A value that is written so that its tree is read again; here the order of fields is free.
def Plain : Json → Prop := Every plain

theorem plain_arr {vs : List Json} : (arr vs).Plain ↔ ∀ v ∈ vs, v.Plain :=
  (and_iff_right trivial).trans everyItem_iff

theorem plain_obj {fs : List (String × Json)} : (obj fs).Plain ↔ ∀ f ∈ fs, f.2.Plain :=
  (and_iff_right trivial).trans everyField_iff

theorem Proper.plain {v : Json} (hp : v.Proper) (hf : v.Floatless) : v.Plain := by
  refine Every.imp₂ (fun v hp hf => ?_) v hp hf
  cases v
  case int   => exact hp
  case float => exact hf
  all_goals trivial

mutual

-- The tree that the text of a value stands for.
def doc : Json → Doc
  | null => .null
  | bool b => .bool b
  | int n => .num (some (.int n))
  | float x => .num (some (.float x))
  | str s => .str (some s)
  | arr vs => .arr (docs vs)
  | obj fs => .obj (fieldDocs fs)

def docs : List Json → List Doc
  | [] => []
  | v :: vs => doc v :: docs vs

def fieldDocs : List (String × Json) → List (Option String × Doc)
  | [] => []
  | (k, v) :: fs => (some k, doc v) :: fieldDocs fs

end

namespace Doc

open Page (ofJson ofItems ofFields lines linesItems linesFields indent quote)

theorem skip_cons (s : List Char) {c : Char} (hc : c ∉ [' ', '\n', '\t', '\r']) :
    skip (c :: s) = c :: s := if_neg (by simpa using hc)

theorem skip_replicate (k : Nat) (s : List Char) : skip (List.replicate k ' ' ++ s) = skip s := by
  induction k with
  | zero      => rfl
  | succ k ih => simpa [List.replicate_succ, skip] using ih

@[simp]
theorem skip_indent (depth : Nat) (s : List Char) : skip (indent depth ++ s) = skip s := by
  simp [indent, skip, skip_replicate]

theorem length_indent (depth : Nat) : (indent depth).length = 2 * depth + 1 := by simp [indent]

-- What stands before a value does not matter beyond its blanks.
theorem value_congr {s t : List Char} (n : Nat) (h : skip s = skip t) : value n s = value n t := by
  cases n with
  | zero   => rfl
  | succ n => rw [value, value, h]

-- What follows an element or a field, which is either another one or the end.

def itemsRest (n : Nat) (acc : List Doc) (s : List Char) : Option (Doc × List Char) :=
  match skip s with
  | ',' :: r => items n acc r
  | ']' :: r => some (arr acc.reverse, r)
  | _ => none

def fieldsRest (n : Nat) (acc : List (Option String × Doc)) (s : List Char) :
    Option (Doc × List Char) :=
  match skip s with
  | ',' :: r => fields n acc r
  | '}' :: r => some (obj acc.reverse, r)
  | _ => none

theorem itemsRest_comma (n : Nat) (acc : List Doc) (s : List Char) :
    itemsRest n acc (',' :: s) = items n acc s := by
  have hs : skip (',' :: s) = ',' :: s := skip_cons s (by decide)
  simp only [itemsRest, hs]

theorem fieldsRest_comma (n : Nat) (acc : List (Option String × Doc)) (s : List Char) :
    fieldsRest n acc (',' :: s) = fields n acc s := by
  have hs : skip (',' :: s) = ',' :: s := skip_cons s (by decide)
  simp only [fieldsRest, hs]

theorem items_succ (n : Nat) (acc : List Doc) (s : List Char) :
    items (n + 1) acc s = (value n s).bind fun p => itemsRest n (p.1 :: acc) p.2 := by
  rw [items]
  cases value n s <;> rfl

theorem fields_succ (n : Nat) (acc : List (Option String × Doc)) {s t : List Char} (k : String)
    (h : skip s = quote k ++ ':' :: t) :
    fields (n + 1) acc s = (value n t).bind fun p => fieldsRest n ((some k, p.1) :: acc) p.2 := by
  rw [quote, List.cons_append, List.cons_append, List.append_assoc] at h
  have hc : skip (':' :: t) = ':' :: t := skip_cons t (by decide)
  rw [fields, h]
  simp only [List.cons_append, List.nil_append, text_quoted, hc]
  cases value n t <;> rfl

-- A number is what starts with none of the characters that the other values start with.
theorem value_number (n : Nat) {c : Char} (s : List Char) (hc : c.isDigit ∨ c = '-') :
    value (n + 1) (c :: s) =
      (Numeral.read (c :: s)).map fun (l, r) => (num l.amount?, r) := by
  have hne : ∀ d ∈ [' ', '\n', '\t', '\r', 'n', 't', 'f', '"', '[', '{'], c ≠ d := by
    have hd : ∀ d ∈ [' ', '\n', '\t', '\r', 'n', 't', 'f', '"', '[', '{'],
        ¬ (d.isDigit ∨ d = '-') := by simp
    rintro d h rfl
    exact hd _ h hc
  simp only [List.forall_mem_cons] at hne
  obtain ⟨h₁, h₂, h₃, h₄, hn, ht, hf, hq, ha, ho, -⟩ := hne
  have hs : skip (c :: s) = c :: s := skip_cons s (by simp [h₁, h₂, h₃, h₄])
  rw [value, hs]
  split
  case h_1 h => exact absurd (List.cons.inj h).1 hn
  case h_2 h => exact absurd (List.cons.inj h).1 ht
  case h_3 h => exact absurd (List.cons.inj h).1 hf
  case h_4 h => exact absurd (List.cons.inj h).1 hq
  case h_5 h => exact absurd (List.cons.inj h).1 ha
  case h_6 h => exact absurd (List.cons.inj h).1 ho
  case h_7   => rfl

theorem value_literal (n : Nat) {i : Int} (hi : Fits i) {r : List Char} (hr : Numeral.Stops r) :
    value (n + 1) (Numeral.literal i ++ r) = some (num (some (.int i)), r) := by
  have hl := Numeral.read_literal i hr
  obtain ⟨c, s, h, hc⟩ := Numeral.literal_eq_cons i
  rw [h, List.cons_append] at hl ⊢
  rw [value_number n _ hc, hl]
  simp [Numeral.amount?_literal hi]

-- A list whose first element can be read is not taken for an empty one.
theorem value_items {m : Nat} (n : Nat) {s : List Char} (h : (value m s).isSome) :
    value (n + 1) ('[' :: s) = items n [] s := by
  have hs : skip ('[' :: s) = '[' :: s := skip_cons s (by decide)
  rw [value, hs]
  simp only
  split
  case h_1 hb =>
    cases m with
    | zero   => cases h
    | succ m =>
      simp [value, hb, Numeral.read, Numeral.readWhole, Numeral.digits, Numeral.digit?] at h
  case h_2 => rfl

theorem value_fields (n : Nat) {s t : List Char} {k : String} (h : skip s = quote k ++ t) :
    value (n + 1) ('{' :: s) = fields n [] s := by
  have hs : skip ('{' :: s) = '{' :: s := skip_cons s (by decide)
  rw [value, hs]
  simp only
  rw [h, quote]
  rfl

theorem value_quote (n : Nat) (s : String) (r : List Char) :
    value (n + 1) (quote s ++ r) = some (str (some s), r) := by
  have hs (t : List Char) : skip ('"' :: t) = '"' :: t := skip_cons t (by decide)
  rw [value, quote, List.cons_append, List.cons_append, List.append_assoc, hs]
  simp [text_quoted]

-- One element and one field, on a line of its own.

theorem items_line {n : Nat} {s r : List Char} {d : Doc} (acc : List Doc) (depth : Nat)
    (h : value n s = some (d, r)) :
    items (n + 1) acc (indent depth ++ s) = itemsRest n (d :: acc) r := by
  rw [items_succ, value_congr n (skip_indent depth s), h]
  rfl

theorem fields_line {n : Nat} {s r : List Char} {d : Doc} (acc : List (Option String × Doc))
    (depth : Nat) (k : String) (h : value n s = some (d, r)) :
    fields (n + 1) acc (indent depth ++ (quote k ++ ':' :: ' ' :: s)) =
      fieldsRest n ((some k, d) :: acc) r := by
  have hk : skip (quote k ++ ':' :: ' ' :: s) = quote k ++ ':' :: ' ' :: s :=
    skip_cons _ (by decide)
  have hs : skip (' ' :: s) = skip s := rfl
  rw [fields_succ n acc k ((skip_indent depth _).trans hk), value_congr n hs, h]
  rfl

theorem stops_linesItems (depth : Nat) (ps : List Page) (r : List Char) :
    Numeral.Stops (linesItems depth ps ++ r) := by
  cases ps <;> exact Numeral.Stops.cons _ (by decide) (by decide)

theorem stops_linesFields (depth : Nat) (ps : List (String × Page)) (r : List Char) :
    Numeral.Stops (linesFields depth ps ++ r) := by
  cases ps <;> exact Numeral.Stops.cons _ (by decide) (by decide)

mutual

theorem value_lines (v : Json) (depth n : Nat) {r : List Char} (hv : v.Plain)
    (hn : (lines depth (ofJson v)).length ≤ n + 1) (hr : Numeral.Stops r) :
    value (n + 1) (lines depth (ofJson v) ++ r) = some (v.doc, r) := by
  match v with
  | .null       => rfl
  | .bool true  => rfl
  | .bool false => rfl
  | .int i      => exact value_literal n hv hr
  | .float _    => exact hv.elim
  | .str s      => exact value_quote n s r
  | .arr []     => rfl
  | .arr (v :: vs) =>
    obtain ⟨-, hv, hvs⟩ := hv
    simp only [ofJson, ofItems, lines, length_indent, List.length_append, List.length_cons] at hn
    obtain ⟨m, rfl⟩ : ∃ m, n = m + 2 := ⟨n - 2, by omega⟩
    have ih := value_lines v (depth + 1) m hv (by omega) (stops_linesItems depth (ofItems vs) r)
    have hs := (value_congr (m + 1) (skip_indent (depth + 1) _)).trans ih
    simp only [ofJson, ofItems, lines, List.cons_append, List.append_assoc]
    rw [value_items (m + 2) (Option.isSome_of_eq_some hs), items_line [] (depth + 1) ih,
      itemsRest_lines vs depth (m + 1) [v.doc] r hvs (by omega)]
    rfl
  | .obj []     => rfl
  | .obj ((k, v) :: fs) =>
    obtain ⟨-, hv, hfs⟩ := hv
    simp only [ofJson, ofFields, lines, length_indent, List.length_append, List.length_cons] at hn
    obtain ⟨m, rfl⟩ : ∃ m, n = m + 2 := ⟨n - 2, by omega⟩
    have ih := value_lines v (depth + 1) m hv (by omega) (stops_linesFields depth (ofFields fs) r)
    simp only [ofJson, ofFields, lines, List.cons_append, List.append_assoc]
    rw [value_fields (m + 2) (skip_indent (depth + 1) _), fields_line [] (depth + 1) k ih,
      fieldsRest_lines fs depth (m + 1) [(some k, v.doc)] r hfs (by omega)]
    rfl

theorem itemsRest_lines (vs : List Json) (depth n : Nat) (acc : List Doc) (r : List Char)
    (hv : EveryItem plain vs) (hn : (linesItems depth (ofItems vs)).length ≤ n) :
    itemsRest n acc (linesItems depth (ofItems vs) ++ r) =
      some (.arr (acc.reverse ++ docs vs), r) := by
  match vs with
  | [] =>
    have hs : skip (']' :: r) = ']' :: r := skip_cons r (by decide)
    simp [itemsRest, ofItems, linesItems, hs, docs]
  | v :: vs =>
    obtain ⟨hv, hvs⟩ := hv
    simp only [ofItems, linesItems, length_indent, List.length_append, List.length_cons] at hn
    obtain ⟨m, rfl⟩ : ∃ m, n = m + 2 := ⟨n - 2, by omega⟩
    have ih := value_lines v (depth + 1) m hv (by omega) (stops_linesItems depth (ofItems vs) r)
    simp only [ofItems, linesItems, List.cons_append, List.append_assoc]
    rw [itemsRest_comma, items_line acc (depth + 1) ih,
      itemsRest_lines vs depth (m + 1) (v.doc :: acc) r hvs (by omega)]
    simp [docs]

theorem fieldsRest_lines (fs : List (String × Json)) (depth n : Nat)
    (acc : List (Option String × Doc)) (r : List Char) (hv : EveryField plain fs)
    (hn : (linesFields depth (ofFields fs)).length ≤ n) :
    fieldsRest n acc (linesFields depth (ofFields fs) ++ r) =
      some (.obj (acc.reverse ++ fieldDocs fs), r) := by
  match fs with
  | [] =>
    have hs : skip ('}' :: r) = '}' :: r := skip_cons r (by decide)
    simp [fieldsRest, ofFields, linesFields, hs, fieldDocs]
  | (k, v) :: fs =>
    obtain ⟨hv, hfs⟩ := hv
    simp only [ofFields, linesFields, length_indent, List.length_append, List.length_cons] at hn
    obtain ⟨m, rfl⟩ : ∃ m, n = m + 2 := ⟨n - 2, by omega⟩
    have ih := value_lines v (depth + 1) m hv (by omega) (stops_linesFields depth (ofFields fs) r)
    simp only [ofFields, linesFields, List.cons_append, List.append_assoc]
    rw [fieldsRest_comma, fields_line acc (depth + 1) k ih,
      fieldsRest_lines fs depth (m + 1) ((some k, v.doc) :: acc) r hfs (by omega)]
    simp [fieldDocs]

end

theorem read?_lines {v : Json} (hv : v.Plain) :
    read? (lines 0 (ofJson v)) = some v.doc := by
  have h := value_lines v 0 (2 * (lines 0 (ofJson v)).length + 1) hv (by omega) Numeral.Stops.nil
  rw [List.append_nil] at h
  rw [read?, h]
  rfl

-- The text of a value is read as the tree of the value.
theorem ofString?_pretty {v : Json} (hv : v.Plain) :
    ofString? (ofJson v).pretty = some v.doc := by
  rw [ofString?, Page.pretty, String.toList_ofList, read?_lines hv]

-- No literal of the tree stands for an integer that is not kept as one.
inductive Ranged : Doc → Prop
  | null : Ranged null
  | bool (b : Bool) : Ranged (bool b)
  | num {n : Option Amount} (h : ∀ i, n = some (.int i) → Fits i) : Ranged (num n)
  | str (s : Option String) : Ranged (str s)
  | arr {ds : List Doc} (h : ∀ d ∈ ds, Ranged d) : Ranged (arr ds)
  | obj {fs : List (Option String × Doc)} (h : ∀ f ∈ fs, Ranged f.2) : Ranged (obj fs)

theorem ranged_of_itemsRest {n : Nat} {acc : List Doc} {s r : List Char} {d : Doc}
    (hi : ∀ acc s d r, (∀ d ∈ acc, Ranged d) → items n acc s = some (d, r) → Ranged d)
    (hacc : ∀ d ∈ acc, Ranged d) (h : itemsRest n acc s = some (d, r)) : Ranged d := by
  rw [itemsRest] at h
  split at h
  case h_1 => exact hi _ _ _ _ hacc h
  case h_2 =>
    cases h
    exact .arr (by simpa using hacc)
  case h_3 => cases h

theorem ranged_of_fields {n : Nat} {acc : List (Option String × Doc)} {s r : List Char} {d : Doc}
    (hv : ∀ s d r, value n s = some (d, r) → Ranged d)
    (hi : ∀ acc s d r, (∀ f ∈ acc, Ranged f.2) → fields n acc s = some (d, r) → Ranged d)
    (hacc : ∀ f ∈ acc, Ranged f.2) (h : fields (n + 1) acc s = some (d, r)) : Ranged d := by
  rw [fields] at h
  split at h
  case h_2 => cases h
  split at h
  case h_1 => cases h
  split at h
  case h_2 => cases h
  split at h
  case h_1 => cases h
  case h_2 d' _ hd =>
    have hacc' : ∀ k, ∀ f ∈ (k, d') :: acc, Ranged f.2 :=
      fun _ => List.forall_mem_cons.2 ⟨hv _ _ _ hd, hacc⟩
    split at h
    case h_1 => exact hi _ _ _ _ (hacc' _) h
    case h_2 =>
      cases h
      exact .obj fun f hf => hacc' _ f (List.mem_reverse.1 hf)
    case h_3 => cases h

theorem ranged_of_value {n : Nat} {s r : List Char} {d : Doc}
    (hi : ∀ s d r, items n [] s = some (d, r) → Ranged d)
    (hf : ∀ s d r, fields n [] s = some (d, r) → Ranged d)
    (h : value (n + 1) s = some (d, r)) : Ranged d := by
  rw [value] at h
  split at h
  case h_1 => cases h; exact .null
  case h_2 => cases h; exact .bool true
  case h_3 => cases h; exact .bool false
  case h_4 =>
    obtain ⟨t, -, ht⟩ := Option.map_eq_some_iff.1 h
    cases ht
    exact .str _
  case h_5 =>
    split at h
    case h_1 => cases h; exact .arr (by simp)
    case h_2 => exact hi _ _ _ h
  case h_6 =>
    split at h
    case h_1 => cases h; exact .obj (by simp)
    case h_2 => exact hf _ _ _ h
  case h_7 =>
    obtain ⟨l, -, hl⟩ := Option.map_eq_some_iff.1 h
    cases hl
    exact .num fun i hi => Numeral.fits_of_amount? hi

theorem ranged (n : Nat) :
    (∀ s d r, value n s = some (d, r) → Ranged d) ∧
    (∀ acc s d r, (∀ d ∈ acc, Ranged d) → items n acc s = some (d, r) → Ranged d) ∧
    (∀ acc s d r, (∀ f ∈ acc, Ranged f.2) → fields n acc s = some (d, r) → Ranged d) := by
  induction n with
  | zero => exact ⟨by simp [value], by simp [items], by simp [fields]⟩
  | succ n ih =>
    obtain ⟨hv, hi, hf⟩ := ih
    refine ⟨fun s d r h => ?value, fun acc s d r hacc h => ?items, fun acc s d r hacc h => ?fields⟩
    case value  => exact ranged_of_value (hi [] · · · (by simp)) (hf [] · · · (by simp)) h
    case items  => 
      rw [items_succ] at h
      obtain ⟨p, hp, h⟩ := Option.bind_eq_some_iff.1 h
      exact ranged_of_itemsRest hi (List.forall_mem_cons.2 ⟨hv _ _ _ hp, hacc⟩) h
    case fields => exact ranged_of_fields hv hf hacc h

theorem ranged_of_ofString? {s : String} {d : Doc} (h : ofString? s = some d) : Ranged d := by
  rw [ofString?, read?] at h
  split at h
  case h_1 hr =>
    obtain ⟨-, rfl⟩ : _ ∧ _ := by simpa using h
    exact (ranged _).1 _ _ _ hr
  case h_2 => cases h

end Doc
end Inference.Json
