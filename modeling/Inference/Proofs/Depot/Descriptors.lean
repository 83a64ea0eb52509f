import Inference.Depot.Descriptors
import Inference.Proofs.Dict

/-!
What a depot takes in of the descriptors in a directory. The files are read in the order in which
they are listed, and their descriptors are known by the names that stand in them. So it does not
matter where the other files are, and the number of names is the same in every order, but of several
files with a descriptor of one name the last one prevails.
-/

namespace Inference

namespace Descriptor

theorem ofFile?_eq_some {fs : Files} {path : String} {m : Descriptor} :
    ofFile? fs path = some m ↔
      ∃ b text, fs.read path = .ok b ∧ Bytes.text? b = some text ∧ parse? text = some m := by
  rw [ofFile?]
  cases fs.read path
  case error => simp [Except.toOption]
  case ok    => simp [Except.toOption, Option.bind_eq_some_iff]

end Descriptor

namespace Depot

-- The file holds a descriptor: it has the extension of descriptors, and its text reads as one.
structure Describes (d : Depot) (file : String) (m : Descriptor) : Prop where
  extension : FilePath.extension? (FilePath.join d.descriptorDir file) = some "json"
  content   : ∃ b text, d.files.read (FilePath.join d.descriptorDir file) = .ok b ∧
    Bytes.text? b = some text ∧ Descriptor.parse? text = some m

-- A file with a descriptor of this name is listed.
def Lists (d : Depot) (l : List String) (name : String) : Prop :=
  ∃ file ∈ l, ∃ m, d.Describes file m ∧ m.name = name

-- Of the files that are listed with a descriptor of this name, the last one holds this descriptor.
def Prevails (d : Depot) (l : List String) (name : String) (m : Descriptor) : Prop :=
  ∃ before file after, l = before ++ file :: after ∧ d.Describes file m ∧ m.name = name ∧
    ¬d.Lists after name

-- No two descriptors of one name differ.
def Unambiguous (d : Depot) (l : List String) : Prop :=
  ∀ file ∈ l, ∀ file' ∈ l, ∀ m m', d.Describes file m → d.Describes file' m' →
    m.name = m'.name → m = m'

-- The number of names that are listed, and a depot in which each of these names has the descriptor
-- that prevails, while all else is as it was.
structure Taken (d : Depot) (l : List String) (r : ℕ × Depot) : Prop where
  count  : ∃ names : List String,
    names.Nodup ∧ (∀ name, name ∈ names ↔ d.Lists l name) ∧ names.length = r.1
  listed : ∀ name, d.Lists l name → ∃ m, d.Prevails l name m ∧ r.2.models.get? name = some m
  kept   : ∀ name, ¬d.Lists l name → r.2.models.get? name = d.models.get? name
  frame  : r.2 = { d with models := r.2.models }

variable {d : Depot} {file name : String} {l l' : List String} {m m' : Descriptor}

def described? (d : Depot) (file : String) : Option Descriptor := do
  let path := FilePath.join d.descriptorDir file
  guard (FilePath.extension? path = some "json")
  Descriptor.ofFile? d.files path

theorem described?_eq_some : d.described? file = some m ↔ d.Describes file m := by
  rw [described?]
  by_cases he : FilePath.extension? (FilePath.join d.descriptorDir file) = some "json"
  case pos =>
    have hd : d.Describes file m ↔ _ := ⟨(·.content), (⟨he, ·⟩)⟩
    rw [hd, ← Descriptor.ofFile?_eq_some]
    simp [he]
  case neg => exact iff_of_false (by simp [he]) fun h => he h.extension

theorem readDescriptors_eq (d : Depot) (l : List String) :
    d.readDescriptors l = .ofList ((l.filterMap d.described?).map fun m => (m.name, m)) := by
  rw [readDescriptors, List.map_filterMap]
  congr 2
  funext file
  simp [described?, Option.map_eq_bind, Option.bind_assoc]

theorem readDescriptors_concat (d : Depot) (l : List String) (file : String) :
    d.readDescriptors (l ++ [file]) = (d.described? file).elim (d.readDescriptors l) fun m =>
      (d.readDescriptors l).insert m.name m := by
  simp only [readDescriptors_eq, List.filterMap_append, List.map_append, Dict.ofList,
    List.foldl_append]
  cases hf : d.described? file <;> simp [hf]

theorem lists_append : d.Lists (l ++ l') name ↔ d.Lists l name ∨ d.Lists l' name := by
  simp [Lists, or_and_right, exists_or]

theorem lists_singleton : d.Lists [file] name ↔ ∃ m, d.Describes file m ∧ m.name = name := by
  simp [Lists]

theorem lists_of_perm (h : l.Perm l') : d.Lists l name ↔ d.Lists l' name :=
  exists_congr fun _ => and_congr_left fun _ => h.mem_iff

theorem prevails_concat : d.Prevails (l ++ [file]) name m ↔
    (d.Describes file m ∧ m.name = name) ∨ (d.Prevails l name m ∧ ¬d.Lists [file] name) := by
  constructor
  case mp =>
    rintro ⟨before, f, after, hl, hd, hn, ha⟩
    obtain rfl | ⟨after, g, rfl⟩ := after.eq_nil_or_concat
    case inl =>
      obtain ⟨-, h⟩ := List.append_inj' hl rfl
      cases h
      exact .inl ⟨hd, hn⟩
    case inr =>
      rw [List.concat_eq_append] at hl ha
      rw [← List.cons_append, ← List.append_assoc] at hl
      obtain ⟨rfl, h⟩ := List.append_inj' hl rfl
      cases h
      obtain ⟨ha, hg⟩ := not_or.mp (lists_append.not.mp ha)
      exact .inr ⟨⟨before, f, after, rfl, hd, hn, ha⟩, hg⟩
  case mpr =>
    rintro (⟨hd, hn⟩ | ⟨⟨before, f, after, rfl, hd, hn, ha⟩, hf⟩)
    case inl => exact ⟨l, file, [], rfl, hd, hn, fun ⟨_, hm, _⟩ => List.not_mem_nil hm⟩
    case inr =>
      have ha' : ¬d.Lists (after ++ [file]) name := lists_append.not.mpr (not_or.mpr ⟨ha, hf⟩)
      exact ⟨before, f, after ++ [file], by simp, hd, hn, ha'⟩

-- By induction from the end of the list, since a later descriptor is put over the earlier ones.
theorem get?_readDescriptors :
    (d.readDescriptors l).get? name = some m ↔ d.Prevails l name m := by
  induction l using List.reverseRecOn
  case nil =>
    refine iff_of_false nofun ?_
    rintro ⟨before, file, after, h, -⟩
    simp at h
  case append_singleton l file hi =>
    rw [prevails_concat, ← hi, lists_singleton, readDescriptors_concat]
    simp only [← described?_eq_some]
    cases d.described? file
    case none   => simp
    case some m' =>
      rw [Option.elim_some, Dict.get?_insert]
      by_cases hn : m'.name = name
      case pos =>
        have h : m' = m → m.name = name := fun h => h ▸ hn
        simpa [hn] using h
      case neg =>
        have h : m' = m → m.name ≠ name := fun h => h ▸ hn
        simpa [hn, Ne.symm hn] using fun he hm => absurd hm (h he)

theorem Prevails.lists (h : d.Prevails l name m) : d.Lists l name := by
  obtain ⟨before, file, after, rfl, hd, hn, -⟩ := h
  exact ⟨file, by simp, m, hd, hn⟩

theorem Lists.prevails (h : d.Lists l name) : ∃ m, d.Prevails l name m := by
  induction l using List.reverseRecOn
  case nil =>
    obtain ⟨_, hf, _⟩ := h
    cases hf
  case append_singleton l file hi =>
    simp only [prevails_concat]
    by_cases hf : d.Lists [file] name
    case pos =>
      obtain ⟨m, hm⟩ := lists_singleton.mp hf
      exact ⟨m, .inl hm⟩
    case neg =>
      obtain ⟨m, hm⟩ := hi <| (lists_append.mp h).resolve_right hf
      exact ⟨m, .inr ⟨hm, hf⟩⟩

theorem get?_readDescriptors_eq_none :
    (d.readDescriptors l).get? name = none ↔ ¬d.Lists l name := by
  rw [Option.eq_none_iff_forall_ne_some]
  constructor
  case mp  => exact fun h hl => have ⟨m, hm⟩ := hl.prevails; h m (get?_readDescriptors.mpr hm)
  case mpr => exact fun h m hm => h (get?_readDescriptors.mp hm).lists

theorem get?_addListed (d : Depot) (l : List String) (name : String) :
    (d.addListed l).2.models.get? name =
      ((d.readDescriptors l).get? name).or (d.models.get? name) :=
  Dict.get?_override ..

theorem prevails_iff (h : d.Lists l name) :
    d.Prevails l name m ↔ (d.addListed l).2.models.get? name = some m := by
  obtain ⟨m', hm⟩ := h.prevails
  rw [get?_addListed, ← get?_readDescriptors, get?_readDescriptors.mpr hm, Option.some_or]

theorem taken (d : Depot) (l : List String) : d.Taken l (d.addListed l) where
  count  := by
    refine ⟨(d.readDescriptors l).keys, Dict.nodup_keys _, fun name => ?_, Dict.length_keys _⟩
    simp only [Dict.mem_keys, get?_readDescriptors]
    exact ⟨fun ⟨_, h⟩ => h.lists, Lists.prevails⟩
  listed := fun _ h => have ⟨m, hm⟩ := h.prevails; ⟨m, hm, (prevails_iff h).mp hm⟩
  kept   := fun _ h => by
    rw [get?_addListed, get?_readDescriptors_eq_none.mpr h, Option.none_or]
  frame  := rfl

theorem addListed_fst_of_perm (h : l.Perm l') : (d.addListed l).1 = (d.addListed l').1 := by
  obtain ⟨names, hn, hm, hc⟩ := (taken d l).count
  obtain ⟨names', hn', hm', hc'⟩ := (taken d l').count
  have hp : names.Perm names' := (List.perm_ext_iff_of_nodup hn hn').mpr fun name =>
    (hm name).trans <| (lists_of_perm h).trans (hm' name).symm
  rw [← hc, ← hc', hp.length_eq]

theorem addListed_snd_eq_iff (h : l.Perm l') : (d.addListed l).2 = (d.addListed l').2 ↔
    ∀ name m, d.Prevails l name m ↔ d.Prevails l' name m := by
  constructor
  case mp =>
    intro he name m
    by_cases hl : d.Lists l name
    case pos => rw [prevails_iff hl, prevails_iff ((lists_of_perm h).mp hl), he]
    case neg => exact iff_of_false (hl ·.lists) fun hp => hl <| (lists_of_perm h).mpr hp.lists
  case mpr =>
    intro hp
    have hr : d.readDescriptors l = d.readDescriptors l' := by
      refine Dict.ext_get? fun name => Option.ext fun m => ?_
      rw [get?_readDescriptors, get?_readDescriptors, hp]
    simp only [addListed, hr]

namespace Unambiguous

theorem iff_filterMap : d.Unambiguous l ↔ ∀ m ∈ l.filterMap d.described?,
    ∀ m' ∈ l.filterMap d.described?, m.name = m'.name → m = m' := by
  simp only [Unambiguous, List.mem_filterMap, described?_eq_some]
  constructor
  case mp  => exact fun h m ⟨f, hf, hm⟩ m' ⟨f', hf', hm'⟩ => h f hf f' hf' m m' hm hm'
  case mpr => exact fun h f hf f' hf' m m' hm hm' => h m ⟨f, hf, hm⟩ m' ⟨f', hf', hm'⟩

instance : Decidable (d.Unambiguous l) := decidable_of_iff _ iff_filterMap.symm

theorem perm (h : d.Unambiguous l) (hp : l.Perm l') : d.Unambiguous l' :=
  fun f hf f' hf' => h f (hp.mem_iff.mpr hf) f' (hp.mem_iff.mpr hf')

theorem prevails_iff (h : d.Unambiguous l) :
    d.Prevails l name m ↔ ∃ file ∈ l, d.Describes file m ∧ m.name = name := by
  constructor
  case mp =>
    rintro ⟨before, file, after, rfl, hd, hn, -⟩
    exact ⟨file, by simp, hd, hn⟩
  case mpr =>
    rintro ⟨file, hf, hd, hn⟩
    have hl : d.Lists l name := ⟨file, hf, m, hd, hn⟩
    obtain ⟨m', hp⟩ := hl.prevails
    obtain ⟨before, file', after, rfl, hd', hn', -⟩ := id hp
    obtain rfl := h file hf file' (by simp) m m' hd hd' (hn.trans hn'.symm)
    exact hp

end Unambiguous

theorem described?_eq_none : d.described? file = none ↔ ∀ m, ¬d.Describes file m := by
  simp [Option.eq_none_iff_forall_ne_some, described?_eq_some]

theorem addListed_of_not_describes (h : ∀ m, ¬d.Describes file m) (before after : List String) :
    d.addListed (before ++ file :: after) = d.addListed (before ++ after) := by
  have hr : d.readDescriptors (before ++ file :: after) = d.readDescriptors (before ++ after) := by
    simp [readDescriptors_eq, described?_eq_none.mpr h]
  simp only [addListed, hr]

-- The entries of a directory may be listed in any order. The count is the same in each, and so are
-- the descriptors exactly if the same ones prevail, which they do where no two descriptors of one
-- name differ. A file without a descriptor has no effect wherever it is listed.
theorem taken_in_any_order (d : Depot) (h : l.Perm l') :
    d.Taken l (d.addListed l) ∧ (d.addListed l).1 = (d.addListed l').1 ∧
    ((d.addListed l).2 = (d.addListed l').2 ↔
      ∀ name m, d.Prevails l name m ↔ d.Prevails l' name m) ∧
    (d.Unambiguous l → (d.addListed l).2 = (d.addListed l').2) ∧
    ∀ file, (∀ m, ¬d.Describes file m) → ∀ before after,
      d.addListed (before ++ file :: after) = d.addListed (before ++ after) := by
  refine ⟨taken d l, addListed_fst_of_perm h, addListed_snd_eq_iff h, fun hu => ?_,
    fun _ => addListed_of_not_describes⟩
  refine (addListed_snd_eq_iff h).mpr fun name m => ?_
  rw [hu.prevails_iff, (hu.perm h).prevails_iff]
  exact exists_congr fun _ => and_congr_left fun _ => h.mem_iff

def denoiser (password : String) : Descriptor := { Descriptor.named "dn" with password := password }

-- A depot that knows two models, with these files in the directory of its descriptors.
def furnished (files : List (String × String)) : Depot :=
  let nodes := files.map fun f => ("conf/" ++ f.1, Node.file (.ofText f.2))
  ((ofDir "conf" ⟨.ofList (("conf", .dir) :: nodes)⟩).addModel (.named "kept")).addModel
    (denoiser "old")

-- The same descriptor stands in two files. Another file breaks off, and one has another extension.
theorem same_descriptor_twice :
    let d := furnished [("a.json", (denoiser "new").toJson), ("b.json", "["),
      ("b.txt", (denoiser "odd").toJson), ("c.json", (denoiser "new").toJson)]
    let l := ["a.json", "b.json", "b.txt", "c.json"]
    d.listing = l ∧ l.Perm l.reverse ∧ d.Unambiguous l ∧ (∀ m, ¬d.Describes "b.json" m) ∧
      d.Taken l (d.addListed l) ∧ (d.addListed l).2 = (d.addListed l.reverse).2 ∧
      (d.addListed l.reverse).1 = 1 ∧ d.addListed l = d.addListed ["a.json", "b.txt", "c.json"] ∧
      (d.addListed l).2.models.get? "dn" = some (denoiser "new") ∧
      (d.addListed l).2.models.get? "kept" = some (.named "kept") := by
  intro d l
  have hp : l.Perm l.reverse := l.reverse_perm.symm
  have ⟨hl, hu, hb, hone, hnew, hkept⟩ : d.listing = l ∧ d.Unambiguous l ∧
      d.described? "b.json" = none ∧ (d.addListed l).1 = 1 ∧
      (d.addListed l).2.models.get? "dn" = some (denoiser "new") ∧
      (d.addListed l).2.models.get? "kept" = some (.named "kept") := by decide +kernel
  have hb : ∀ m, ¬d.Describes "b.json" m := described?_eq_none.mp hb
  obtain ⟨ht, hc, -, hs, hn⟩ := taken_in_any_order d hp
  exact ⟨hl, hp, hu, hb, ht, hs hu, hc ▸ hone, hn _ hb ["a.json"] _, hnew, hkept⟩

-- Two files hold descriptors of one name that differ. The one that is listed last is taken in.
theorem last_listed_prevails :
    let d := furnished [("a.json", (denoiser "one").toJson), ("b.json", (denoiser "two").toJson)]
    let l := ["a.json", "b.json"]
    d.listing = l ∧ l.Perm l.reverse ∧
      (d.addListed l).2.models.get? "dn" = some (denoiser "two") ∧
      (d.addListed l.reverse).2.models.get? "dn" = some (denoiser "one") ∧
      (d.addListed l).2.models ≠ (d.addListed l.reverse).2.models := by
  intro d l
  have ⟨hl, htwo, hone⟩ : d.listing = l ∧
      (d.addListed l).2.models.get? "dn" = some (denoiser "two") ∧
      (d.addListed l.reverse).2.models.get? "dn" = some (denoiser "one") := by decide +kernel
  refine ⟨hl, l.reverse_perm.symm, htwo, hone, fun he => ?_⟩
  have h : denoiser "one" = denoiser "two" := Option.some.inj (hone.symm.trans (he ▸ htwo))
  exact absurd h (by decide)

end Depot
end Inference
