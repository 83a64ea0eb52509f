import Inference.Runner.Basic
import Mathlib.Tactic.Common

/-!
A journal of what is asked of a framework and of a resolver, and of what they answer. An instance
has a number in the journal: the place of the entry by which it came to be. What is run with a
journal does what it does without one.
-/

namespace Inference

-- What was asked for, and what was told, without the instances and the buffers that were given.
inductive Journal.Entry where
  | make (told : Except Error ℕ)
  | supports (i : ℕ) (d : DeviceId) (told : Bool)
  | configure (i : ℕ) (x : Section)
  | moveTo (i : ℕ) (d : DeviceId)
  | provide (file : String) (told : Except RunnerError Unit)
  | load (i : ℕ) (told : Except Error Unit)
  | loadFile (i : ℕ) (path key : String) (told : Except Error Unit)
  | remove (file : String) (told : Except RunnerError Unit)
  | download (m : Descriptor) (file : String) (told : Except RunnerError Unit)
  | copy (i : ℕ) (d : DeviceId) (told : Except Error ℕ)

structure Journal (σ : Type) where
  state : σ
  entries : List Journal.Entry

structure Numbered (β : Type) where
  number : ℕ
  value : β

variable {σ β β' α α' ε : Type}

-- Whether something was given, or why it was not.
def outcome (r : Except ε α) : Except ε Unit := r.map fun _ => ()

namespace Journal

def begun (s : σ) : Journal σ := ⟨s, []⟩

-- An action with its entry.
def noting (entry : α → Entry) (m : StateM σ α) : StateM (Journal σ) α := fun j =>
  ((m j.state).1, ⟨(m j.state).2, j.entries ++ [entry (m j.state).1]⟩)

-- An action that gives a new instance, with its entry.
def numbering (entry : Except Error ℕ → Entry) (m : StateM σ (Except Error β)) :
    StateM (Journal σ) (Except Error (Numbered β)) := fun j =>
  let n := j.entries.length
  ((m j.state).1.map (.mk n), ⟨(m j.state).2, j.entries ++ [entry ((m j.state).1.map fun _ => n)]⟩)

-- An action that gives an instance back when it is loaded, with its entry.
def loading (entry : Except Error Unit → Entry) (i : ℕ) (m : StateM σ (Except Error β)) :
    StateM (Journal σ) (Except Error (Numbered β)) :=
  (·.map (.mk i)) <$> noting (entry <| outcome ·) m

-- An action without an entry.
def silently (m : StateM σ α) : StateM (Journal σ) α := fun j =>
  ((m j.state).1, { j with state := (m j.state).2 })

end Journal

open Journal (Entry noting numbering loading silently)

-- All that is asked for until an instance is loaded or copied is written down.
def Workshop.journaled (w : Workshop σ β) : Workshop (Journal σ) (Numbered β) where
  registry := ⟨fun k => some <| numbering .make (w.registry.make k)⟩
  adapter := {
    load := fun b x => loading (.load b.number) b.number (w.adapter.load b.value x)
    loadFile := fun b path key =>
      loading (.loadFile b.number path key) b.number (w.adapter.loadFile b.value path key)
    supports := fun b d => noting (.supports b.number d) (w.adapter.supports b.value d)
    configure := fun b x => .mk b.number <$>
      noting (fun _ => .configure b.number x) (w.adapter.configure b.value x)
    moveTo := fun b d => .mk b.number <$>
      noting (fun _ => .moveTo b.number d) (w.adapter.moveTo b.value d)
    copy := fun b d => numbering (.copy b.number d) (w.adapter.copy b.value d)
    process := fun b x => silently (w.adapter.process b.value x)
    acquire := fun b => silently (w.adapter.acquire b.value)
    release := fun b => silently (w.adapter.release b.value)
    blank := fun b => w.adapter.blank b.value
    describe := fun b => w.adapter.describe b.value }
  resolver := {
    path := fun j => w.resolver.path j.state
    load := fun file => noting (.provide file <| outcome ·) (w.resolver.load file)
    remove := fun file => noting (.remove file) (w.resolver.remove file)
    download := fun m file => noting (.download m file) (w.resolver.download m file) }

-- What is run with a journal of so many entries does what it does without one, up to the numbers,
-- and the entries that it adds are related to what it gives.
def Records (n : ℕ) (erase : α → α') (m : StateM (Journal σ) α) (m' : StateM σ α')
    (P : List Entry → α → Prop) : Prop :=
  ∀ j, j.entries.length = n →
    ∃ a s es, m j = (a, ⟨s, j.entries ++ es⟩) ∧ m' j.state = (erase a, s) ∧ P es a

namespace Records

variable {n : ℕ} {erase : α → α'} {erase' : β → β'} {m : StateM (Journal σ) α} {m' : StateM σ α'}
  {P : List Entry → α → Prop} {R : List Entry → β → Prop}

theorem pure {a : α} (h : P [] a) :
    Records n erase (pure a : StateM (Journal σ) α) (pure (erase a)) P :=
  fun j _ => ⟨a, j.state, [], by rw [List.append_nil]; rfl, rfl, h⟩

theorem bind {k : α → StateM (Journal σ) β} {k' : α' → StateM σ β'} (hm : Records n erase m m' P)
    (hk : ∀ a es, P es a →
      Records (n + es.length) erase' (k a) (k' (erase a)) fun es' b => R (es ++ es') b) :
    Records n erase' (m >>= k) (m' >>= k') R := by
  intro j hj
  have ⟨a, s, es, h, h', hP⟩ := hm j hj
  have ⟨b, t, es', hb, hb', hR⟩ := hk a es hP ⟨s, j.entries ++ es⟩ (by rw [List.length_append, hj])
  refine ⟨b, t, es ++ es', ?_, ?_, hR⟩
  · simp only [Bind.bind, StateT.bind, h, hb, List.append_assoc]
  · simp only [Bind.bind, StateT.bind, h', hb']

theorem map {f : α → β} {erase' : β → α'} (h : Records n erase m m' P)
    (he : ∀ a, erase' (f a) = erase a) (hR : ∀ a es, P es a → R es (f a)) :
    Records n erase' (f <$> m) m' R := by
  intro j hj
  have ⟨a, s, es, h, h', ha⟩ := h j hj
  refine ⟨f a, s, es, ?_, he a ▸ h', hR a es ha⟩
  simp only [Functor.map, StateT.map, h]
  rfl

theorem imp {P' : List Entry → α → Prop} (h : Records n erase m m' P)
    (hP : ∀ es a, P es a → P' es a) : Records n erase m m' P' := by
  intro j hj
  have ⟨a, s, es, h, h', ha⟩ := h j hj
  exact ⟨a, s, es, h, h', hP es a ha⟩

theorem noting (entry : α → Entry) (m : StateM σ α) :
    Records n id (noting entry m) m fun es a => es = [entry a] :=
  fun _ _ => ⟨_, _, _, rfl, rfl, rfl⟩

-- An instance keeps its number when it is loaded.
theorem loading (entry : Except Error Unit → Entry) (i : ℕ) (m : StateM σ (Except Error β)) :
    Records n (·.map (·.value)) (loading entry i m) m fun es r =>
      es = [entry (outcome r)] ∧ ∀ b, r = .ok b → b.number = i := by
  refine .map (.noting _ _) (fun r => by cases r <;> rfl) ?_
  rintro (_ | _) es rfl
  case error => exact ⟨rfl, nofun⟩
  case ok    => exact ⟨rfl, by rintro _ ⟨⟩; rfl⟩

theorem numbering {entry : Except Error ℕ → Entry} {m : StateM σ (Except Error β)} :
    Records n (·.map (·.value)) (numbering entry m) m fun es r =>
      es = [entry (r.map (·.number))] ∧ ∀ b, r = .ok b → b.number = n := by
  intro j hj
  cases hr : (m j.state).1
  case error e =>
    refine ⟨.error e, (m j.state).2, [entry (.error e)], ?_, Prod.ext hr rfl, rfl, nofun⟩
    simp only [Journal.numbering, hr]
    rfl
  case ok b =>
    refine ⟨.ok ⟨n, b⟩, (m j.state).2, [entry (.ok n)], ?_, Prod.ext hr rfl, rfl, ?_⟩
    · simp only [Journal.numbering, hr, hj]
      rfl
    · rintro _ ⟨⟩
      rfl

end Records

namespace Workshop

variable {w : Workshop σ β} {p : Plan} {d : DeviceId} {n : ℕ}

section Asking

variable (b : Numbered β) (file : String)

theorem records_make (k : Backend) :
    Records n (·.map (·.value)) (w.journaled.registry.make k) (w.registry.make k) fun es r =>
      es = [.make (r.map (·.number))] ∧ ∀ b, r = .ok b → b.number = n := .numbering

theorem records_supports :
    Records n id (w.journaled.adapter.supports b d) (w.adapter.supports b.value d)
      fun es told => es = [.supports b.number d told] := .noting _ _

theorem records_configure (x : Section) :
    Records n (·.value) (w.journaled.adapter.configure b x) (w.adapter.configure b.value x)
      fun es b' => es = [.configure b.number x] ∧ b'.number = b.number :=
  .map (.noting _ _) (fun _ => rfl) fun _ _ h => ⟨h, rfl⟩

theorem records_moveTo :
    Records n (·.value) (w.journaled.adapter.moveTo b d) (w.adapter.moveTo b.value d)
      fun es b' => es = [.moveTo b.number d] ∧ b'.number = b.number :=
  .map (.noting _ _) (fun _ => rfl) fun _ _ h => ⟨h, rfl⟩

theorem records_load (x : Buffers) :
    Records n (·.map (·.value)) (w.journaled.adapter.load b x) (w.adapter.load b.value x)
      fun es r => es = [.load b.number (outcome r)] ∧ ∀ b', r = .ok b' → b'.number = b.number :=
  .loading _ _ _

theorem records_loadFile (path key : String) :
    Records n (·.map (·.value)) (w.journaled.adapter.loadFile b path key)
      (w.adapter.loadFile b.value path key) fun es r =>
        es = [.loadFile b.number path key (outcome r)] ∧
          ∀ b', r = .ok b' → b'.number = b.number :=
  .loading _ _ _

theorem records_copy :
    Records n (·.map (·.value)) (w.journaled.adapter.copy b d) (w.adapter.copy b.value d)
      fun es r => es = [.copy b.number d (r.map (·.number))] ∧ ∀ b', r = .ok b' → b'.number = n :=
  .numbering

theorem records_provide :
    Records n id (w.journaled.resolver.load file) (w.resolver.load file)
      fun es r => es = [.provide file (outcome r)] :=
  .noting (.provide file <| outcome ·) _

theorem records_remove :
    Records n id (w.journaled.resolver.remove file) (w.resolver.remove file)
      fun es r => es = [.remove file r] := .noting _ _

theorem records_download (m : Descriptor) :
    Records n id (w.journaled.resolver.download m file) (w.resolver.download m file)
      fun es r => es = [.download m file r] := .noting _ _

end Asking

-- What comes before the load of an instance.
def readied (p : Plan) (d : DeviceId) (i : ℕ) : List Entry :=
  [.make (.ok i), .supports i d true, .configure i p.chosenSection, .moveTo i d]

-- An instance is made ready to be loaded, or is refused.
inductive Readies (p : Plan) (d : DeviceId) (i : ℕ) : List Entry → Except RunnerError ℕ → Prop
  | refused (e) : Readies p d i [.make (.error e)] (.error (.part e))
  | unfit : Readies p d i [.make (.ok i), .supports i d false]
      (.error (.part (.unsupportedDevice p.backend d)))
  | ready : Readies p d i (readied p d i) (.ok i)

-- An artifact that needs no key is provided first.
inductive Loads (p : Plan) (i : ℕ) : List Entry → Except RunnerError ℕ → Prop
  | withheld (e) : p.descriptor.key = "" → Loads p i [.provide p.file (.error e)] (.error e)
  | rejected (e) : p.descriptor.key = "" →
      Loads p i [.provide p.file (.ok ()), .load i (.error e)] (.error (.part e))
  | loaded : p.descriptor.key = "" →
      Loads p i [.provide p.file (.ok ()), .load i (.ok ())] (.ok i)
  | rejectedFile (e) : p.descriptor.key ≠ "" →
      Loads p i [.loadFile i p.path p.descriptor.key (.error e)] (.error (.part e))
  | loadedFile : p.descriptor.key ≠ "" →
      Loads p i [.loadFile i p.path p.descriptor.key (.ok ())] (.ok i)

theorem records_construct : Records n (·.map (·.value)) (w.journaled.construct p d)
    (w.construct p d) fun es r => Readies p d n es (r.map (·.number)) := by
  refine (records_make p.backend).bind ?_
  rintro (e | b) _ ⟨rfl, hn⟩
  case error => exact .pure (.refused e)
  case ok =>
    obtain rfl := hn b rfl
    refine (records_supports b).bind ?_
    rintro (_ | _) _ rfl
    case false => exact .pure .unfit
    case true =>
      refine (records_configure b p.chosenSection).bind ?_
      rintro ⟨_, b'⟩ _ ⟨rfl, rfl⟩
      refine (records_moveTo ⟨b.number, b'⟩).bind ?_
      rintro ⟨_, b''⟩ _ ⟨rfl, rfl⟩
      exact .pure .ready

theorem records_loadInto (b : Numbered β) : Records n (·.map (·.value)) (w.journaled.loadInto p b)
    (w.loadInto p b.value) fun es r => Loads p b.number es (r.map (·.number)) := by
  rw [loadInto, loadInto]
  split
  case isTrue hk =>
    refine (records_provide p.file).bind ?_
    rintro (e | x) _ rfl
    case error => exact .pure (.withheld e hk)
    case ok =>
      refine (records_load b x).bind ?_
      rintro (e | b') _ ⟨rfl, hb⟩
      case error => exact .pure (.rejected e hk)
      case ok    => exact .pure (hb b' rfl ▸ .loaded hk)
  case isFalse hk =>
    refine (records_loadFile b p.path p.descriptor.key).bind ?_
    rintro (e | b') _ ⟨rfl, hb⟩
    case error => exact .pure (.rejectedFile e hk)
    case ok    => exact .pure (hb b' rfl ▸ .loadedFile hk)

end Workshop
end Inference
