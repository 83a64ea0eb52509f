import Inference.Descriptor
import Inference.Proofs.Json.Record

/-!
The round trip of a descriptor. A descriptor and its sections are written as objects: first the
fields that have a meaning, where an absent password and an empty list of files are left out, then
all others. What is read of such an object is the same descriptor, since the other fields have none
of the known names and are written as values that are read again.
-/

namespace Inference

open Json

-- The fields with a meaning, as they are written.
def Section.own (s : Section) : List (String × Json) :=
  ("inputs", .obj (s.inputs.entries.map fun e => (e.1, .str e.2))) ::
    (if s.files = [] then [] else [("files", .arr (s.files.map .str))])

def Section.json (s : Section) : Json := .obj (s.own ++ s.extra.entries)

-- What the other fields have to be: fields under names of their own, with values as they are kept.
def Foreign (known : List String) (extra : Dict Json) : Prop :=
  ∀ e ∈ extra.entries, e.1 ∉ known ∧ e.2.Proper

-- In none of the values are more containers nested in each other.
def Within (room : Nat) (extra : Dict Json) : Prop :=
  ∀ e ∈ extra.entries, (Page.ofJson e.2).height ≤ room

theorem extraOfDocs?_doc {known : List String} {room : Nat} {extra : Dict Json}
    (hf : Foreign known extra) (hw : Within room extra) :
    extraOfDocs? room (extra.entries.map fun e => (e.1, e.2.doc)) = some extra := by
  have hm := Doc.mapM_map_of_forall (f := fun e => do return (e.1, ← e.2.json? room))
    (g := fun e => (e.1, e.2.doc)) (l := extra.entries) fun e he => by
      simp [Doc.json?_doc e.2 (hf e he).2 (hw e he)]
  exact (congrArg (· >>= fun es => pure (Dict.ofList es)) hm).trans (by simp)

theorem foreign_of_extraOfDocs? {known : List String} {room : Nat} {fs : List (String × Doc)}
    {extra : Dict Json} (hf : ∀ f ∈ fs, f.1 ∉ known ∧ f.2.Ranged)
    (h : extraOfDocs? room fs = some extra) : Foreign known extra ∧ Within room extra := by
  simp only [extraOfDocs?, Option.bind_eq_bind, Option.bind_eq_some_iff] at h
  obtain ⟨es, hes, h⟩ := h
  cases h
  suffices hm : ∀ e ∈ es, e.1 ∉ known ∧ e.2.Proper ∧ (Page.ofJson e.2).height ≤ room by
    have hm' (e) (he : e ∈ (Dict.ofList es).entries) := hm e (Dict.mem_of_mem_ofList he)
    exact ⟨fun e he => ⟨(hm' e he).1, (hm' e he).2.1⟩, fun e he => (hm' e he).2.2⟩
  intro e he
  obtain ⟨⟨k, d⟩, hm, hd⟩ := Doc.exists_of_mapM hes e he
  obtain ⟨v, hv, hd⟩ := Option.bind_eq_some_iff.1 hd
  cases hd
  exact ⟨(hf _ hm).1, Doc.proper_of_json? (hf _ hm).2 hv⟩

namespace Section

theorem page_eq (s : Section) : s.page = Page.ofJson s.json := by
  by_cases hs : s.files = []
  all_goals
    simp [page, json, own, extraPages, hs, Page.ofJson, Page.ofFields_eq_map, Page.ofItems_eq_map]

-- The known names come first and only once, so each field is found where it was written.
theorem ofDoc?_doc {s : Section} {room : Nat} (hf : Foreign known s.extra)
    (hw : Within room s.extra) : ofDoc? room s.json.doc = some s := by
  have ho : ∀ f ∈ s.own, f.1 ∈ known := by
    by_cases hs : s.files = [] <;> simp [own, known, hs]
  have hn : (s.own.map (·.1)).Nodup := by
    by_cases hs : s.files = [] <;> simp [own, hs]
  have hi : field (s.own.map fun f => (f.1, f.2.doc)) "inputs" (Doc.dict? Doc.text?) ∅ =
      some s.inputs := Doc.dict?_doc (g := .str) fun _ _ => rfl
  have hl : field (s.own.map fun f => (f.1, f.2.doc)) "files" (Doc.list? Doc.text?) [] =
      some s.files := by
    by_cases hs : s.files = []
    case pos => simp [field, own, hs, List.lookup_cons]
    case neg =>
      have hd := Doc.list?_doc (f := Doc.text?) (g := .str) (l := s.files) fun _ _ => rfl
      simp [field, own, hs, List.lookup_cons, hd]
  simp [ofDoc?, json, Doc.split?_doc ho hn fun e he => (hf e he).1, hi, hl,
    extraOfDocs?_doc hf hw]

theorem height_page_le {s : Section} {k : Nat} (hk : 0 < k) :
    s.page.height ≤ k + 1 ↔ Within k s.extra := by
  obtain ⟨k, rfl⟩ := Nat.exists_eq_add_one.2 hk
  have ho : ∀ f ∈ s.own, (Page.ofJson f.2).height ≤ k + 1 := by
    have hi : (Page.ofJson (.obj (s.inputs.entries.map fun e => (e.1, .str e.2)))).height ≤ k + 1 :=
      Page.height_obj_le.2 (List.forall_mem_map.2 fun _ _ => Nat.zero_le _)
    have hl : (Page.ofJson (.arr (s.files.map .str))).height ≤ k + 1 :=
      Page.height_arr_le.2 (List.forall_mem_map.2 fun _ _ => Nat.zero_le _)
    by_cases hs : s.files = [] <;> simp [own, hs, hi, hl]
  rw [page_eq, json, Page.height_obj_le, List.forall_mem_append]
  exact and_iff_right ho

theorem foreign_of_ofDoc? {s : Section} {room : Nat} {d : Doc} (hd : d.Ranged)
    (h : ofDoc? room d = some s) : Foreign known s.extra ∧ Within room s.extra := by
  simp only [ofDoc?, Option.bind_eq_bind, Option.bind_eq_some_iff] at h
  obtain ⟨⟨own, others⟩, hs, inputs, -, files, -, extra, he, h⟩ := h
  cases h
  exact foreign_of_extraOfDocs? (Doc.ranged_of_split? hd hs).2 he

theorem plain_json {s : Section} (h : Foreign known s.extra)
    (hf : ∀ e ∈ s.extra.entries, e.2.Floatless) : s.json.Plain := by
  refine plain_obj.2 (List.forall_mem_append.2 ⟨?own, ?extra⟩)
  case own =>
    have hi : (Json.obj (s.inputs.entries.map fun e => (e.1, .str e.2))).Plain :=
      plain_obj.2 (List.forall_mem_map.2 fun _ _ => trivial)
    have hl : (Json.arr (s.files.map .str)).Plain :=
      plain_arr.2 (List.forall_mem_map.2 fun _ _ => trivial)
    by_cases hs : s.files = [] <;> simp [own, hs, hi, hl]
  case extra => exact fun e he => (h e he).2.plain (hf e he)

end Section

namespace Descriptor

-- The fields with a meaning, as they are written.
def own (m : Descriptor) : List (String × Json) :=
  ("name", .str m.name) ::
    (match m.password with
      | none => []
      | some p => [("password", .str p)]) ++
    [("backends", .obj (m.sections.entries.map fun e => (e.1, e.2.json)))]

def json (m : Descriptor) : Json := .obj (m.own ++ m.extra.entries)

theorem page_eq (m : Descriptor) : m.page = Page.ofJson m.json := by
  cases hp : m.password
  all_goals
    simp [page, json, own, Section.extraPages, hp, Page.ofJson, Page.ofFields_eq_map,
      Section.page_eq]

theorem ofDoc?_doc {m : Descriptor} (hf : Foreign known m.extra)
    (hw : Within (maxDepth - 1) m.extra) (hs : ∀ e ∈ m.sections.entries,
      Foreign Section.known e.2.extra ∧ Within (maxDepth - 3) e.2.extra) :
    ofDoc? m.json.doc = some m := by
  have ho : ∀ f ∈ m.own, f.1 ∈ known := by
    cases hp : m.password <;> simp [own, known, hp]
  have hn : (m.own.map (·.1)).Nodup := by
    cases hp : m.password <;> simp [own, hp]
  have hname : required (m.own.map fun f => (f.1, f.2.doc)) "name" Doc.text? = some m.name := rfl
  have hpass : field (m.own.map fun f => (f.1, f.2.doc)) "password" (Doc.optional? Doc.text?) none =
      some m.password := by
    cases hp : m.password <;>
      simp [field, own, hp, List.lookup_cons, Doc.optional?, Doc.text?, doc]
  have hd := Doc.dict?_doc (f := Section.ofDoc? (maxDepth - 3)) (g := Section.json)
    fun e he => Section.ofDoc?_doc (hs e he).1 (hs e he).2
  have hsec : field (m.own.map fun f => (f.1, f.2.doc)) "backends"
      (Doc.dict? (Section.ofDoc? (maxDepth - 3))) ∅ = some m.sections := by
    cases hp : m.password <;> simp [field, own, hp, List.lookup_cons, hd]
  simp [ofDoc?, json, Doc.split?_doc ho hn fun e he => (hf e he).1, hname, hpass, hsec,
    extraOfDocs?_doc hf hw]

-- A section is inside of two containers.
theorem height_page_le {m : Descriptor} :
    m.page.height ≤ maxDepth ↔ Within (maxDepth - 1) m.extra ∧
      ∀ e ∈ m.sections.entries, Within (maxDepth - 3) e.2.extra := by
  have hs : (Page.ofJson (.obj (m.sections.entries.map fun e => (e.1, e.2.json)))).height ≤
      maxDepth - 1 ↔ ∀ e ∈ m.sections.entries, Within (maxDepth - 3) e.2.extra := by
    refine Page.height_obj_le.trans (List.forall_mem_map.trans ?_)
    refine forall₂_congr fun e _ => ?_
    rw [← Section.page_eq]
    exact Section.height_page_le (by decide)
  have ho : (∀ f ∈ m.own, (Page.ofJson f.2).height ≤ maxDepth - 1) ↔
      ∀ e ∈ m.sections.entries, Within (maxDepth - 3) e.2.extra := by
    have ht (s : String) : (Page.ofJson (.str s)).height ≤ maxDepth - 1 := Nat.zero_le _
    cases hp : m.password <;> simp [own, hp, ht, hs]
  rw [page_eq, json]
  exact Page.height_obj_le.trans <| List.forall_mem_append.trans <|
    (and_congr_left fun _ => ho).trans and_comm

-- No double is among the other fields, at either level.
def Floatless (m : Descriptor) : Prop :=
  (∀ e ∈ m.extra.entries, e.2.Floatless) ∧
  ∀ s ∈ m.sections.entries, ∀ e ∈ s.2.extra.entries, e.2.Floatless

-- A descriptor whose text can be read: the other fields have none of the known names of their
-- level, and the containers are not nested too deep.
structure Portable (m : Descriptor) : Prop where
  top      : Foreign known m.extra
  sections : ∀ s ∈ m.sections.entries, Foreign Section.known s.2.extra
  nested   : m.page.height ≤ maxDepth

theorem plain_json {m : Descriptor} (hp : m.Portable) (hf : m.Floatless) : m.json.Plain := by
  have hs : ∀ s ∈ m.sections.entries, s.2.json.Plain :=
    fun s hs => Section.plain_json (hp.sections s hs) (hf.2 s hs)
  refine plain_obj.2 (List.forall_mem_append.2 ⟨?own, ?extra⟩)
  case own =>
    have hb : (Json.obj (m.sections.entries.map fun e => (e.1, e.2.json))).Plain :=
      plain_obj.2 (List.forall_mem_map.2 hs)
    have ht (s : String) : (Json.str s).Plain := trivial
    cases hp : m.password <;> simp [own, hp, hb, ht]
  case extra => exact fun e he => (hp.top e he).2.plain (hf.1 e he)

theorem portable_of_parse? {text : String} {m : Descriptor} (h : parse? text = some m) :
    m.Portable := by
  obtain ⟨d, hd, h⟩ := Option.bind_eq_some_iff.1 h
  have hr := Doc.ranged_of_ofString? hd
  simp only [ofDoc?, Option.bind_eq_bind, Option.bind_eq_some_iff] at h
  obtain ⟨⟨own, others⟩, hs, name, -, password, -, sections, hb, extra, he, h⟩ := h
  cases h
  obtain ⟨hown, hothers⟩ := Doc.ranged_of_split? hr hs
  obtain ⟨ht, hw⟩ := foreign_of_extraOfDocs? hothers he
  have hsec : ∀ s ∈ sections.entries,
      Foreign Section.known s.2.extra ∧ Within (maxDepth - 3) s.2.extra := by
    simp only [field] at hb
    split at hb
    case h_1 => cases hb; exact fun _ h => absurd h List.not_mem_nil
    case h_2 hl =>
      intro s hm
      obtain ⟨_, _, rfl, -⟩ := List.lookup_eq_some_iff.1 hl
      have hd := hown _ (List.mem_append_right _ (List.mem_cons_self ..))
      obtain ⟨d, hd, hs⟩ := Doc.exists_of_dict? hd hb s hm
      exact Section.foreign_of_ofDoc? hd hs
  exact {
    top      := ht
    sections := fun s hs => (hsec s hs).1
    nested   := height_page_le.2 ⟨hw, fun s hs => (hsec s hs).2⟩ }

end Descriptor

-- The sections and the descriptors that the `with` functions make have no other fields.

inductive Section.Built : Section → Prop
  | default : Built default
  | withInput {s : Section} (h : Built s) (nick layer : String) : Built (s.withInput nick layer)
  | withFile {s : Section} (h : Built s) (file : String) : Built (s.withFile file)

theorem Section.Built.extra_eq {s : Section} (h : s.Built) : s.extra = ∅ := by
  induction h with
  | default            => rfl
  | withInput _ _ _ ih => exact ih
  | withFile _ _ ih    => exact ih

namespace Descriptor

inductive Built : Descriptor → Prop
  | named (name : String) : Built (.named name)
  | withSection {m : Descriptor} {s : Section} (h : Built m) (k : Backend) (hs : s.Built) :
      Built (m.withSection k s)

theorem Built.extra_eq {m : Descriptor} (h : m.Built) :
    m.extra = ∅ ∧ ∀ s ∈ m.sections.entries, s.2.extra = ∅ := by
  induction h with
  | named name => exact ⟨rfl, fun _ h => absurd h List.not_mem_nil⟩
  | withSection _ k hs ih =>
    refine ⟨ih.1, fun e he => ?_⟩
    obtain rfl | he := Entries.mem_of_mem_put he
    · exact hs.extra_eq
    · exact ih.2 e he

theorem Built.portable {m : Descriptor} (h : m.Built) : m.Portable ∧ m.Floatless := by
  obtain ⟨he, hs⟩ := h.extra_eq
  have hn {p : String × Json → Prop} {extra : Dict Json} (h : extra = ∅) :
      ∀ e ∈ extra.entries, p e := h ▸ List.forall_mem_nil p
  refine ⟨{ top := hn he, sections := ?_, nested := ?_ }, hn he, ?_⟩
  case refine_1 => exact fun s hm => hn (hs s hm)
  case refine_2 => exact height_page_le.2 ⟨hn he, fun s hm => hn (hs s hm)⟩
  case refine_3 => exact fun s hm => hn (hs s hm)

-- The text of the descriptor is read as that descriptor, which is then written as the same text.
def Survives (m : Descriptor) : Prop :=
  parse? m.toJson = some m ∧ (parse? m.toJson).map toJson = some m.toJson

theorem Portable.survives {m : Descriptor} (hp : m.Portable) (hf : m.Floatless) : m.Survives := by
  obtain ⟨ht, hs⟩ := height_page_le.1 hp.nested
  have h : parse? m.toJson = some m := by
    rw [parse?, toJson, page_eq, Doc.ofString?_pretty (plain_json hp hf)]
    exact ofDoc?_doc hp.top ht fun e he => ⟨hp.sections e he, hs e he⟩
  exact ⟨h, congrArg (Option.map toJson) h⟩

theorem survives_iff_portable {m : Descriptor} (hf : m.Floatless) : m.Survives ↔ m.Portable where
  mp h  := portable_of_parse? h.1
  mpr h := h.survives hf

-- Which descriptors survive: those whose texts can be read, and so those that were made with the
-- `with` functions and those that were read, as long as no double is among their other fields.
theorem survives_text :
    (∀ m : Descriptor, m.Portable → m.Floatless → m.Survives) ∧
    (∀ m : Descriptor, m.Built → m.Survives) ∧
    ∀ (text : String) (m : Descriptor), parse? text = some m → m.Floatless → m.Survives :=
  ⟨fun _ hp hf => hp.survives hf,
    fun _ hb => hb.portable.1.survives hb.portable.2,
    fun _ _ h hf => (portable_of_parse? h).survives hf⟩

theorem upscaler_survives :
    let scale : Section := {
      inputs := ⟨[("image", "input_1")], List.pairwise_singleton ..⟩
      files := ["up.onnx"]
      extra := ⟨[("scale", .int (-2))], List.pairwise_singleton ..⟩ }
    let m : Descriptor := {
      name := "up\"scale\n"
      password := some ""
      sections := ⟨[("onnx", scale)], List.pairwise_singleton ..⟩
      extra := ⟨[("tags", .arr [.str "\t", .null])], List.pairwise_singleton ..⟩ }
    let b := (named "denoise").withSection .openVino (Section.withInput default "image" "x")
    (m.Portable ∧ m.Floatless ∧ m.Survives) ∧ (b.Built ∧ b.Survives) ∧
      (parse? m.toJson = some m ∧ m.Survives) := by
  intro scale m b
  have hp : m.Portable := {
    top := by simp [m, Foreign, known, Proper, Every, EveryItem, proper]
    sections := by simp [m, scale, Foreign, Section.known, Proper, Every, proper, Fits]
    nested := by decide }
  have hf : m.Floatless := by
    simp [m, scale, Floatless, Json.Floatless, Every, EveryItem, floatless]
  have hb : b.Built := .withSection (.named _) _ (.withInput .default _ _)
  have hm := survives_text.1 m hp hf
  exact ⟨⟨hp, hf, hm⟩, ⟨hb, survives_text.2.1 b hb⟩, hm.1, survives_text.2.2 m.toJson m hm.1 hf⟩

end Descriptor
end Inference
