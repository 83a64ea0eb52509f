import Inference.Proofs.Runner.Journal

/-!
How an instance comes to be loaded, whatever the framework and the resolver answer each time they
are asked. A first instance is constructed and loaded. If it cannot be loaded then the artifact is
removed, a second instance is constructed, the artifact is fetched, and the second instance is
loaded; that is all that is done.
-/

namespace Inference

open Journal (Entry)

inductive Journal.Phase where
  | construct
  | load
  | remove
  | download
deriving DecidableEq

-- A load that fails because the artifact is not provided is one as well.
def Journal.Entry.phase? : Entry → Option Journal.Phase
  | make _ => some .construct
  | provide _ (.error _) | load .. | loadFile .. => some .load
  | remove .. => some .remove
  | download .. => some .download
  | _ => none

-- The instances that were to be loaded, and whether they were. An artifact is provided for the
-- instance that was made last.
def Journal.tries : ℕ → List Entry → List (ℕ × Bool)
  | _, [] => []
  | _, .make (.ok i) :: es => tries i es
  | i, .provide _ (.error _) :: es => (i, false) :: tries i es
  | _, .load i told :: es | _, .loadFile i _ _ told :: es => (i, told.isOk) :: tries i es
  | i, _ :: es => tries i es

-- A resolver that removes artifacts as ever and tells something else of it.
def Resolver.telling {σ : Type} (r : Resolver σ) (told : String → σ → Except RunnerError Unit) :
    Resolver σ :=
  { r with remove := fun file s => (told file s, (r.remove file s).2) }

namespace Workshop

open Journal (tries)

-- What comes of a second instance.
inductive Renews (p : Plan) (d : DeviceId) (i : ℕ) : List Entry → Except RunnerError ℕ → Prop
  | refused {es e} : Readies p d i es (.error e) → Renews p d i es (.error e)
  | unfetched (e) :
      Renews p d i (readied p d i ++ [.download p.descriptor p.file (.error e)]) (.error e)
  | fetched {es r} : Loads p i es r →
      Renews p d i (readied p d i ++ .download p.descriptor p.file (.ok ()) :: es) r

-- What comes of making an instance, in a journal of `n` entries: all that is asked for, and what is
-- given in the end. A first instance is refused, or it is loaded, or all that was asked for of it
-- is followed by the removal and by a second instance, which is refused, or not fetched for, or
-- loaded or not. The number of the second instance counts the entries up to the removal.
inductive Recovers (p : Plan) (d : DeviceId) (n : ℕ) : List Entry → Except RunnerError ℕ → Prop
  | refused {es e} : Readies p d n es (.error e) → Recovers p d n es (.error e)
  | loaded {es i} : Loads p n es (.ok i) → Recovers p d n (readied p d n ++ es) (.ok i)
  | renewed {es e told es' r} : Loads p n es (.error e) → Renews p d (n + 4 + es.length + 1) es' r →
      Recovers p d n (readied p d n ++ (es ++ .remove p.file told :: es'))
        (r.mapError fun _ => p.loadError)

variable {σ β : Type} {w : Workshop σ β} {p : Plan} {d : DeviceId} {i j n : ℕ}
  {es es' before : List Entry} {e : RunnerError} {r : Except RunnerError ℕ}

theorem Readies.of_ok (h : Readies p d i es (.ok j)) : es = readied p d i ∧ j = i := by
  cases h
  exact ⟨rfl, rfl⟩

theorem Loads.of_ok (h : Loads p i es (.ok j)) : j = i := by
  cases h <;> rfl

theorem records_reconstruct : Records n (·.map (·.value)) (w.journaled.reconstruct p d)
    (w.reconstruct p d) fun es r => Renews p d n es (r.map (·.number)) := by
  refine records_construct.bind ?_
  rintro (e | b) es h
  case error => exact .pure (es.append_nil.symm ▸ .refused h)
  case ok =>
    obtain ⟨rfl, hb⟩ := h.of_ok
    refine (records_download p.file p.descriptor).bind ?_
    rintro (e | _) _ rfl
    case error => exact .pure (.unfetched e)
    case ok    => exact (records_loadInto b).imp fun es r h => .fetched (hb ▸ h)

theorem records_makeInstance : Records n (·.map (·.value)) (w.journaled.makeInstance p d)
    (w.makeInstance p d) fun es r => Recovers p d n es (r.map (·.number)) := by
  refine records_construct.bind ?_
  rintro (e | b) es h
  case error => exact .pure (es.append_nil.symm ▸ .refused h)
  case ok =>
    obtain ⟨rfl, rfl⟩ := h.of_ok
    refine (records_loadInto b).bind ?_
    rintro (e | b') es h
    case ok => exact .pure (es.append_nil.symm ▸ .loaded h)
    case error =>
      refine (records_remove p.file).bind ?_
      rintro told _ rfl
      refine records_reconstruct.bind ?_
      rintro (e | b') es' h'
      all_goals
        refine .pure ?_
        rw [List.append_nil]
        exact .renewed h h'

-- What is asked for after certain entries of a journal is asked for at its time: an instance is
-- loaded when it has been made ready for the device, and the artifact is removed when a load has
-- failed.
def Due (p : Plan) (d : DeviceId) (before : List Entry) : Entry → Prop
  | .make _ | .configure .. => True
  | .supports _ d' _ | .moveTo _ d' => d' = d
  | .provide file _ => file = p.file
  | .load i _ => readied p d i <:+: before
  | .loadFile i path key _ => path = p.path ∧ key = p.descriptor.key ∧ readied p d i <:+: before
  | .remove file _ => file = p.file ∧ ∃ i, (tries 0 before).getLast? = some (i, false)
  | .download m file _ => m = p.descriptor ∧ file = p.file
  | .copy .. => False

-- The journal of an instance that is made, and the number of the instance if it comes to be loaded.
structure Protocol (p : Plan) (d : DeviceId) (es : List Entry) (r : Except RunnerError ℕ) :
    Prop where
  order   : es.filterMap Entry.phase? <+: [.construct, .load, .remove, .construct, .download, .load]
  due     : ∀ k e, es[k]? = some e → Due p d (es.take k) e
  loaded  : ∀ i, r = .ok i ↔ (tries 0 es).getLast? = some (i, true)
  spared  : ∀ i, r = .ok i → (i, false) ∉ tries 0 es
  retried : ∀ i, (i, false) ∈ tries 0 es →
    [.construct, .load, .remove, .construct] <+: es.filterMap Entry.phase?
  -- The first construction either fails, which is the end of it, or does not.
  first   : (∃ e, r = .error e ∧ Readies p d 0 es (.error e)) ∨
    readied p d 0 <+: es ∧ ∀ e, r = .error e → e = p.loadError

-- What a journal of one load comes to.
inductive Tried (i : ℕ) : List (ℕ × Bool) → Except RunnerError ℕ → Prop
  | never (e : RunnerError)  : Tried i [] (.error e)
  | failed (e : RunnerError) : Tried i [(i, false)] (.error e)
  | loaded                   : Tried i [(i, true)] (.ok i)

theorem Tried.of_ok {l : List (ℕ × Bool)} (h : Tried i l (.ok j)) : l = [(i, true)] ∧ j = i := by
  cases h
  exact ⟨rfl, rfl⟩

theorem phases_readied : (readied p d i).filterMap Entry.phase? = [.construct] := rfl

theorem tries_readied : tries j (readied p d i ++ es) = tries i es := rfl

namespace Readies

theorem phases (h : Readies p d i es r) : es.filterMap Entry.phase? = [.construct] := by
  cases h <;> rfl

theorem tries_eq_nil (h : Readies p d i es (.error e)) : tries j es = [] := by
  cases h <;> rfl

end Readies

namespace Loads

theorem phases (h : Loads p i es r) : es.filterMap Entry.phase? = [.load] := by
  cases h <;> rfl

theorem tries_append (h : Loads p i es r) : tries i (es ++ es') = (i, r.isOk) :: tries i es' := by
  cases h <;> rfl

theorem tried (h : Loads p i es r) : Tried i (tries i es) r := by
  cases h
  case loaded | loadedFile => exact .loaded
  all_goals exact .failed _

end Loads

namespace Renews

theorem phases (h : Renews p d i es r) :
    ∃ l, es.filterMap Entry.phase? = .construct :: l ∧ l <+: [.download, .load] := by
  cases h
  case refused h   => exact ⟨[], h.phases, List.nil_prefix⟩
  case unfetched e => exact ⟨[.download], rfl, [.load], rfl⟩
  case fetched h   =>
    refine ⟨[.download, .load], ?_, List.prefix_rfl⟩
    simp [phases_readied, h.phases, Entry.phase?]

theorem tried (h : Renews p d i es r) : Tried i (tries j es) r := by
  cases h
  case refused h   => exact h.tries_eq_nil ▸ .never _
  case unfetched e => exact .never e
  case fetched h   => exact h.tried

end Renews

-- All that is asked for in entries that come after others is due.
def Timely (p : Plan) (d : DeviceId) (before es : List Entry) : Prop :=
  ∀ k e, es[k]? = some e → Due p d (before ++ es.take k) e

namespace Timely

variable {x : Entry}

theorem nil : Timely p d before [] := nofun

theorem cons (hx : Due p d before x) (h : Timely p d (before ++ [x]) es) :
    Timely p d before (x :: es) := by
  rintro (_ | k) y hy
  case zero =>
    cases hy
    rwa [List.take_zero, List.append_nil]
  case succ =>
    have h := h k y hy
    rwa [List.append_assoc] at h

theorem append (h : Timely p d before es) (h' : Timely p d (before ++ es) es') :
    Timely p d before (es ++ es') := by
  intro k y hy
  rw [List.getElem?_append] at hy
  split at hy
  case isTrue hk =>
    rw [List.take_append_of_le_length (Nat.le_of_lt hk)]
    exact h k y hy
  case isFalse hk =>
    rw [List.take_append, List.take_of_length_le (by omega), ← List.append_assoc]
    exact h' _ y hy

end Timely

theorem Readies.timely (h : Readies p d i es r) : Timely p d before es := by
  cases h
  case refused e => exact .cons trivial .nil
  case unfit     => exact .cons trivial <| .cons rfl .nil
  case ready     => exact .cons trivial <| .cons rfl <| .cons trivial <| .cons rfl .nil

theorem Loads.timely (h : Loads p i es r) (hr : readied p d i <:+: before) :
    Timely p d before es := by
  have hr' {x} : readied p d i <:+: before ++ [x] := hr.trans (List.prefix_append ..).isInfix
  cases h
  case withheld e _                 => exact .cons rfl .nil
  case rejected _ | loaded          => exact .cons rfl <| .cons hr' .nil
  case rejectedFile _ | loadedFile  => exact .cons ⟨rfl, rfl, hr⟩ .nil

theorem Renews.timely (h : Renews p d i es r) : Timely p d before es := by
  cases h
  case refused h   => exact h.timely
  case unfetched e => exact .append Readies.ready.timely <| .cons ⟨rfl, rfl⟩ .nil
  case fetched h   =>
    refine .append Readies.ready.timely <| .cons ⟨rfl, rfl⟩ <| h.timely ?_
    exact ⟨before, [.download p.descriptor p.file (.ok ())], rfl⟩

theorem Recovers.timely (h : Recovers p d n es r) : Timely p d [] es := by
  cases h
  case refused h      => exact h.timely
  case loaded h       => exact .append Readies.ready.timely <| h.timely List.infix_rfl
  case renewed es e told es' r h h' =>
    have hl : tries n (es ++ []) = [(n, false)] := h.tries_append
    rw [List.append_nil] at hl
    refine .append Readies.ready.timely <| .append (h.timely List.infix_rfl) ?_
    exact .cons ⟨rfl, n, congrArg _ hl⟩ h'.timely

theorem Recovers.protocol (h : Recovers p d 0 es r) : Protocol p d es r := by
  have ht := h.timely
  cases h
  case refused e h =>
    have hp := h.phases
    have hl := h.tries_eq_nil (j := 0)
    exact {
      order   := by simp [hp]
      due     := ht
      loaded  := by simp [hl]
      spared  := by simp [hl]
      retried := by simp [hl]
      first   := .inl ⟨e, rfl, h⟩ }
  case loaded es i h =>
    have hp : (readied p d 0 ++ es).filterMap Entry.phase? = [.construct, .load] := by
      simp [phases_readied, h.phases]
    have ⟨hl, hi⟩ := h.tried.of_ok
    have hl : tries 0 (readied p d 0 ++ es) = [(0, true)] := hl
    exact {
      order   := hp ▸ ⟨_, rfl⟩
      due     := ht
      loaded  := by simp [hl, hi, eq_comm]
      spared  := by simp [hl]
      retried := by simp [hl]
      first   := .inr ⟨List.prefix_append .., nofun⟩ }
  case renewed es e told es' r h h' =>
    have ⟨l, hp', hpl⟩ := h'.phases
    have hp : (readied p d 0 ++ (es ++ .remove p.file told :: es')).filterMap Entry.phase? =
        [.construct, .load, .remove, .construct] ++ l := by
      simp [phases_readied, h.phases, hp', Entry.phase?]
    have hl : tries 0 (readied p d 0 ++ (es ++ .remove p.file told :: es')) =
        (0, false) :: tries 0 es' := by
      rw [tries_readied, h.tries_append]
      rfl
    have hl' := h'.tried (j := 0)
    generalize tries 0 es' = l' at hl hl'
    have hf : ∀ e, (r.mapError fun _ => p.loadError) = .error e → e = p.loadError := by
      intro e he
      cases r <;> cases he
      rfl
    constructor
    case order   => exact hp ▸ (List.prefix_append_right_inj _).mpr hpl
    case due     => exact ht
    case loaded  => cases hl' <;> simp [hl, Except.mapError, eq_comm]
    case spared  => cases hl' <;> simp [hl, Except.mapError]
    case retried => exact fun _ _ => hp ▸ List.prefix_append ..
    case first   => exact .inr ⟨List.prefix_append .., hf⟩

-- Whatever is told of a removal, the same instance comes to be loaded.
theorem makeInstance_telling (told : String → σ → Except RunnerError Unit) :
    { w with resolver := w.resolver.telling told }.makeInstance p d = w.makeInstance p d := by
  funext s
  simp only [makeInstance, Resolver.telling, bind, StateT.bind]
  rfl

-- An instance is made as the protocol has it, whatever is answered each time something is asked
-- for: the journal and what is given are related exactly by what comes of a first and of a second
-- instance, and therefore keep the order and the counts of the protocol. What is told of the
-- removal makes no difference.
theorem recovery_protocol (w : Workshop σ β) (p : Plan) (d : DeviceId) (s : σ) :
    let (r, j) := w.journaled.makeInstance p d (.begun s)
    w.makeInstance p d s = (r.map (·.value), j.state) ∧
      Recovers p d 0 j.entries (r.map (·.number)) ∧
      Protocol p d j.entries (r.map (·.number)) ∧
      ∀ told, { w with resolver := w.resolver.telling told }.makeInstance p d =
        w.makeInstance p d := by
  have ⟨r, s', es, hm, hw, h⟩ := records_makeInstance (w := w) (p := p) (d := d) (.begun s) rfl
  rw [hm]
  exact ⟨hw, h, h.protocol, fun _ => makeInstance_telling _⟩

end Workshop
end Inference
