import Inference.Json.Record
import Inference.Proofs.Dict
import Inference.Proofs.Json.Reading

/-!
From trees to values. The tree of a value is taken back to that value where there is room for its
containers; and what a tree is taken to is a value as values are kept, within the room there was.
-/

namespace Inference

namespace Page

mutual

-- How many containers are nested in each other.
def height : Page → Nat
  | atom _ => 0
  | arr ps => heightItems ps + 1
  | obj fs => heightFields fs + 1

def heightItems : List Page → Nat
  | [] => 0
  | p :: ps => max (height p) (heightItems ps)

def heightFields : List (String × Page) → Nat
  | [] => 0
  | (_, p) :: fs => max (height p) (heightFields fs)

end

theorem heightItems_le {ps : List Page} {k : Nat} :
    heightItems ps ≤ k ↔ ∀ p ∈ ps, height p ≤ k := by
  induction ps with
  | nil          => simp [heightItems]
  | cons p ps ih => simp [heightItems, ih]

theorem heightFields_le {fs : List (String × Page)} {k : Nat} :
    heightFields fs ≤ k ↔ ∀ f ∈ fs, height f.2 ≤ k := by
  induction fs with
  | nil          => simp [heightFields]
  | cons f fs ih => simp [heightFields, ih]

theorem ofItems_eq_map (vs : List Json) : ofItems vs = vs.map ofJson := by
  induction vs with
  | nil          => rfl
  | cons v vs ih => rw [ofItems, ih, List.map_cons]

theorem ofFields_eq_map (fs : List (String × Json)) :
    ofFields fs = fs.map fun f => (f.1, ofJson f.2) := by
  induction fs with
  | nil          => rfl
  | cons f fs ih => rw [ofFields, ih, List.map_cons]

theorem height_arr_le {vs : List Json} {k : Nat} :
    (ofJson (.arr vs)).height ≤ k + 1 ↔ ∀ v ∈ vs, (ofJson v).height ≤ k := by
  rw [ofJson, height, Nat.add_le_add_iff_right, heightItems_le, ofItems_eq_map,
    List.forall_mem_map]

theorem height_obj_le {fs : List (String × Json)} {k : Nat} :
    (ofJson (.obj fs)).height ≤ k + 1 ↔ ∀ f ∈ fs, (ofJson f.2).height ≤ k := by
  rw [ofJson, height, Nat.add_le_add_iff_right, heightFields_le, ofFields_eq_map,
    List.forall_mem_map]

end Page

namespace Json

open Page (ofJson ofItems ofFields)

theorem docs_eq_map (vs : List Json) : docs vs = vs.map doc := by
  induction vs with
  | nil          => rfl
  | cons v vs ih => rw [docs, ih, List.map_cons]

namespace Doc

mutual

theorem json?_doc (v : Json) {room : Nat} (hv : v.Proper) (hh : (ofJson v).height ≤ room) :
    v.doc.json? room = some v := by
  match v with
  | .null | .bool _ | .int _ | .float _ | .str _ => rfl
  | .arr vs =>
    obtain ⟨-, hv⟩ := hv
    simp only [ofJson, Page.height] at hh
    rw [doc, json?, if_neg (by omega), itemsJson?_docs vs hv (by omega), Option.map_some]
  | .obj fs =>
    obtain ⟨hs, hv⟩ := hv
    simp only [ofJson, Page.height] at hh
    rw [doc, json?, if_neg (by omega), fieldsJson?_fieldDocs fs [] hv hs (by omega),
      Option.map_some, List.nil_append]

theorem itemsJson?_docs (vs : List Json) {room : Nat} (hv : EveryItem proper vs)
    (hh : Page.heightItems (ofItems vs) ≤ room) : itemsJson? room (docs vs) = some vs := by
  match vs with
  | []      => rfl
  | v :: vs =>
    obtain ⟨hv, hvs⟩ := hv
    obtain ⟨hh, hhs⟩ := max_le_iff.1 hh
    rw [docs, itemsJson?, json?_doc v hv hh, itemsJson?_docs vs hvs hhs]

theorem fieldsJson?_fieldDocs (fs acc : List (String × Json)) {room : Nat}
    (hv : EveryField proper fs) (hs : Entries.Sorted (acc ++ fs))
    (hh : Page.heightFields (ofFields fs) ≤ room) :
    fieldsJson? room acc (fieldDocs fs) = some (acc ++ fs) := by
  match fs with
  | []           => rw [fieldDocs, fieldsJson?, List.append_nil]
  | (k, v) :: fs =>
    obtain ⟨hv, hvs⟩ := hv
    obtain ⟨hh, hhs⟩ := max_le_iff.1 hh
    have hp := Entries.put_of_forall_lt v hs.lt_of_append
    rw [fieldDocs, fieldsJson?, json?_doc v hv hh]
    simp only [hp]
    rw [fieldsJson?_fieldDocs fs _ hvs (by simpa using hs) hhs]
    simp

end

theorem mem_of_itemsJson? {room : Nat} {ds : List Doc} {vs : List Json}
    (h : itemsJson? room ds = some vs) : ∀ v ∈ vs, ∃ d ∈ ds, d.json? room = some v := by
  induction ds generalizing vs with
  | nil          => cases h; simp
  | cons d ds ih =>
    rw [itemsJson?] at h
    split at h
    case h_2 => cases h
    case h_1 hv hvs =>
      cases h
      refine List.forall_mem_cons.2 ⟨⟨d, List.mem_cons_self .., hv⟩, fun v hm => ?_⟩
      obtain ⟨d, hd, hj⟩ := ih hvs v hm
      exact ⟨d, List.mem_cons_of_mem _ hd, hj⟩

theorem sorted_of_fieldsJson? {room : Nat} {acc fs : List (String × Json)}
    {ds : List (Option String × Doc)} (hacc : Entries.Sorted acc)
    (h : fieldsJson? room acc ds = some fs) : Entries.Sorted fs := by
  induction ds generalizing acc with
  | nil          => cases h; exact hacc
  | cons d ds ih =>
    obtain ⟨k, d⟩ := d
    cases k with
    | none   => cases h
    | some k =>
      rw [fieldsJson?] at h
      split at h
      case h_1 v _ => exact ih (Entries.sorted_put k v hacc) h
      case h_2     => cases h

theorem mem_of_fieldsJson? {room : Nat} {acc fs : List (String × Json)}
    {ds : List (Option String × Doc)} (h : fieldsJson? room acc ds = some fs) :
    ∀ f ∈ fs, f ∈ acc ∨ ∃ d ∈ ds, d.2.json? room = some f.2 := by
  induction ds generalizing acc with
  | nil          => cases h; exact fun f hf => .inl hf
  | cons d ds ih =>
    obtain ⟨k, d⟩ := d
    cases k with
    | none   => cases h
    | some k =>
      rw [fieldsJson?] at h
      split at h
      case h_2     => cases h
      case h_1 v hv =>
        intro f hf
        obtain hm | ⟨d', hd, hj⟩ := ih h f hf
        · obtain rfl | hm := Entries.mem_of_mem_put hm
          · exact .inr ⟨_, List.mem_cons_self .., hv⟩
          · exact .inl hm
        · exact .inr ⟨d', List.mem_cons_of_mem _ hd, hj⟩

theorem proper_of_json? {d : Doc} (hd : d.Ranged) {room : Nat} {v : Json}
    (h : d.json? room = some v) : v.Proper ∧ (ofJson v).height ≤ room := by
  induction hd generalizing room v with
  | null   => cases h; exact ⟨trivial, Nat.zero_le _⟩
  | bool _ => cases h; exact ⟨trivial, Nat.zero_le _⟩
  | @num n hn =>
    cases n with
    | none   => cases h
    | some n =>
      cases n with
      | int i   => cases h; exact ⟨hn i rfl, Nat.zero_le _⟩
      | float x => cases h; exact ⟨trivial, Nat.zero_le _⟩
  | str s =>
    cases s with
    | none   => cases h
    | some s => cases h; exact ⟨trivial, Nat.zero_le _⟩
  | arr _ ih =>
    rw [json?] at h
    split at h
    case isTrue => cases h
    case isFalse h0 =>
      obtain ⟨vs, hvs, rfl⟩ := Option.map_eq_some_iff.1 h
      have hm (v) (hv : v ∈ vs) : v.Proper ∧ (ofJson v).height ≤ room - 1 := by
        obtain ⟨d, hd, hj⟩ := mem_of_itemsJson? hvs v hv
        exact ih d hd hj
      obtain ⟨k, rfl⟩ := Nat.exists_eq_succ_of_ne_zero h0
      exact ⟨⟨trivial, everyItem_iff.2 fun v hv => (hm v hv).1⟩,
        Page.height_arr_le.2 fun v hv => (hm v hv).2⟩
  | obj _ ih =>
    rw [json?] at h
    split at h
    case isTrue => cases h
    case isFalse h0 =>
      obtain ⟨fs, hfs, rfl⟩ := Option.map_eq_some_iff.1 h
      have hm (f) (hf : f ∈ fs) : f.2.Proper ∧ (ofJson f.2).height ≤ room - 1 := by
        obtain ⟨d, hd, hj⟩ := (mem_of_fieldsJson? hfs f hf).resolve_left (List.not_mem_nil)
        exact ih d hd hj
      obtain ⟨k, rfl⟩ := Nat.exists_eq_succ_of_ne_zero h0
      exact ⟨⟨sorted_of_fieldsJson? .nil hfs, everyField_iff.2 fun f hf => (hm f hf).1⟩,
        Page.height_obj_le.2 fun f hf => (hm f hf).2⟩

-- The parts of an object that was written.

theorem mapM_map_of_forall {α β : Type} {f : β → Option α} {g : α → β} {l : List α}
    (h : ∀ a ∈ l, f (g a) = some a) : (l.map g).mapM f = some l := by
  induction l with
  | nil         => rfl
  | cons a l ih =>
    obtain ⟨ha, hl⟩ := List.forall_mem_cons.1 h
    simp [List.mapM_cons, ha, ih hl]

theorem named_fieldDocs (fs : List (String × Json)) :
    named (fieldDocs fs) = some (fs.map fun f => (f.1, f.2.doc)) := by
  induction fs with
  | nil          => rfl
  | cons f fs ih => simp [fieldDocs, named, ih]

theorem split?_doc {known : List String} {own others : List (String × Json)}
    (ho : ∀ f ∈ own, f.1 ∈ known) (hn : (own.map (·.1)).Nodup)
    (hk : ∀ f ∈ others, f.1 ∉ known) :
    (Json.obj (own ++ others)).doc.split? known =
      some (own.map (fun f => (f.1, f.2.doc)), others.map (fun f => (f.1, f.2.doc))) := by
  have hown : (own ++ others).filter (known.contains ·.1) = own := by
    rw [List.filter_append, List.filter_eq_self.2 fun f hf => List.contains_iff_mem.2 (ho f hf),
      List.filter_eq_nil_iff.2 fun f hf => mt List.contains_iff_mem.1 (hk f hf), List.append_nil]
  have hothers : (own ++ others).filter (!known.contains ·.1) = others := by
    rw [List.filter_append, List.filter_eq_nil_iff.2 fun f hf => by simpa using ho f hf,
      List.filter_eq_self.2 fun f hf => by simpa using hk f hf, List.nil_append]
  simp only [doc, split?, named_fieldDocs, Option.bind_eq_bind, Option.bind_some, List.filter_map,
    Function.comp_def, hown, hothers, List.map_map]
  exact if_pos hn

theorem dict?_doc {α : Type} {f : Doc → Option α} {g : α → Json} {t : Dict α}
    (h : ∀ e ∈ t.entries, f (g e.2).doc = some e.2) :
    (Json.obj (t.entries.map fun e => (e.1, g e.2))).doc.dict? f = some t := by
  have hm := mapM_map_of_forall (f := fun e => do return (e.1, ← f e.2))
    (g := fun e => (e.1, (g e.2).doc)) (l := t.entries) fun e he => by simp [h e he]
  rw [doc, dict?, named_fieldDocs, List.map_map]
  exact (congrArg (· >>= fun es => pure (Dict.ofList es)) hm).trans (by simp)

theorem list?_doc {α : Type} {f : Doc → Option α} {g : α → Json} {l : List α}
    (h : ∀ a ∈ l, f (g a).doc = some a) : (Json.arr (l.map g)).doc.list? f = some l := by
  rw [doc, list?, docs_eq_map, List.map_map]
  exact mapM_map_of_forall h

-- The parts of an object that was read.

theorem exists_of_mapM {α β : Type} {f : α → Option β} {as : List α} {bs : List β}
    (h : as.mapM f = some bs) : ∀ b ∈ bs, ∃ a ∈ as, f a = some b := by
  induction as generalizing bs with
  | nil          => cases h; simp
  | cons a as ih =>
    rw [List.mapM_cons] at h
    obtain ⟨b, hb, h⟩ := Option.bind_eq_some_iff.1 h
    obtain ⟨bs, hbs, h⟩ := Option.bind_eq_some_iff.1 h
    cases h
    refine List.forall_mem_cons.2 ⟨⟨a, List.mem_cons_self .., hb⟩, fun b hm => ?_⟩
    obtain ⟨a, ha, hf⟩ := ih hbs b hm
    exact ⟨a, List.mem_cons_of_mem _ ha, hf⟩

theorem mem_of_named {ds : List (Option String × Doc)} {fs : List (String × Doc)}
    (h : named ds = some fs) : ∀ f ∈ fs, (some f.1, f.2) ∈ ds := by
  induction ds generalizing fs with
  | nil          => cases h; simp
  | cons d ds ih =>
    obtain ⟨k, d⟩ := d
    simp only [named, Option.bind_eq_bind, Option.bind_eq_some_iff] at h
    obtain ⟨k, rfl, fs, hfs, h⟩ := h
    cases h
    exact List.forall_mem_cons.2
      ⟨List.mem_cons_self .., fun f hf => List.mem_cons_of_mem _ (ih hfs f hf)⟩

theorem ranged_of_named {ds : List (Option String × Doc)} {fs : List (String × Doc)}
    (hd : Ranged (obj ds)) (h : named ds = some fs) : ∀ f ∈ fs, f.2.Ranged := by
  cases hd with
  | obj hd => exact fun f hf => hd _ (mem_of_named h f hf)

theorem ranged_of_split? {known : List String} {d : Doc} {own others : List (String × Doc)}
    (hd : d.Ranged) (h : d.split? known = some (own, others)) :
    (∀ f ∈ own, f.2.Ranged) ∧ ∀ f ∈ others, f.1 ∉ known ∧ f.2.Ranged := by
  cases d
  case obj ds =>
    simp only [split?, Option.bind_eq_bind, Option.bind_eq_some_iff] at h
    obtain ⟨fs, hfs, h⟩ := h
    split at h
    case isFalse => cases h
    case isTrue  =>
      cases h
      have hr := ranged_of_named hd hfs
      refine ⟨fun f hf => hr f (List.mem_filter.1 hf).1, fun f hf => ?_⟩
      obtain ⟨hm, hk⟩ := List.mem_filter.1 hf
      exact ⟨by simpa using hk, hr f hm⟩
  all_goals cases h

theorem exists_of_dict? {α : Type} {f : Doc → Option α} {d : Doc} {t : Dict α} (hd : d.Ranged)
    (h : d.dict? f = some t) : ∀ e ∈ t.entries, ∃ d : Doc, d.Ranged ∧ f d = some e.2 := by
  cases d
  case obj ds =>
    simp only [dict?, Option.bind_eq_bind, Option.bind_eq_some_iff] at h
    obtain ⟨fs, hfs, es, hes, h⟩ := h
    cases h
    intro e he
    obtain ⟨⟨k, d⟩, hm, hf⟩ := exists_of_mapM hes e (Dict.mem_of_mem_ofList he)
    obtain ⟨a, ha, hf⟩ := Option.bind_eq_some_iff.1 hf
    cases hf
    exact ⟨d, ranged_of_named hd hfs _ hm, ha⟩
  all_goals cases h

end Doc
end Json
end Inference
