import Inference.Proofs.Cache
import Inference.Proofs.Depot.Calls
import Inference.Proofs.Machine

/-!
When a depot goes on serving buffers that its files no longer have. A call reads or changes a file
in one action and the cache in another one, so another call may come in between. An entry that is
not what the file has does no harm as long as some call is about to forget it. It is stranded if
there is no such call.
-/

namespace Inference

namespace Depot

def entries (d : Depot) : List CacheEntry := (d.cache.map (·.entries)).getD []

-- What the file of a name has.
def reading (d : Depot) (f : String) : Except Error Buffers := readArtifact d.files (d.path f)

def Stale (d : Depot) (f : String) : Prop :=
  ∃ e ∈ d.entries, e.key = f ∧ d.reading f ≠ .ok e.buffers

-- The buffers are added to the cache.
def Takes (d : Depot) (f : String) (b : Buffers) : Prop := ∃ c, d.cache = some c ∧ c.Takes f b

-- The actions that change the files, but for the placing of the file itself.
inductive Disturbs (f : String) : (Depot → Depot) → Prop
  | fetch (s g) : Disturbs f fun d => (fetch s g d).2
  | discard (g) : Disturbs f (discardPart g)
  | place {g} : g ≠ f → Disturbs f fun d => (placePart g d).2
  | delete (g) : Disturbs f fun d => (deleteFile g d).2

-- A load adds what it has read before the file was changed, or a file is changed after a load has
-- added what it read.
inductive Spoils (d : Depot) (f : String) : (Depot → Depot) → Prop
  | late {b} : d.Takes f b → d.reading f ≠ .ok b → Spoils d f (remember f b)
  | early {act e} : Disturbs f act → e ∈ d.entries → e.key = f →
      (act d).reading f ≠ .ok e.buffers → Spoils d f act

variable {d d' : Depot} {f : String} {b : Buffers} {e : CacheEntry} {act : Depot → Depot}

theorem Stale.of_subset (h : d'.Stale f) (he : ∀ e ∈ d'.entries, e ∈ d.entries)
    (hr : d'.reading f = d.reading f) : d.Stale f :=
  have ⟨e, hm, hk, hn⟩ := h
  ⟨e, he e hm, hk, hr ▸ hn⟩

theorem entries_of_cache {c : Cache} (h : d.cache = some c) : d.entries = c.entries := by
  simp [entries, h]

theorem mem_of_mem_lookUp (g : String) (h : e ∈ (lookUp g d).2.entries) : e ∈ d.entries := by
  cases hc : d.cache
  case none   => simp [lookUp, entries, hc] at h
  case some c =>
    rw [entries_of_cache hc]
    exact Cache.mem_of_mem_fetch (by simpa [lookUp, entries, hc] using h)

theorem lookUp_eq_some (h : (lookUp f d).1 = some b) :
    ∃ e ∈ d.entries, e.key = f ∧ e.buffers = b := by
  cases hc : d.cache
  case none   => simp [lookUp, hc] at h
  case some c =>
    rw [entries_of_cache hc]
    exact Cache.fetch_eq_some (by simpa [lookUp, hc] using h)

theorem reading_lookUp (g f : String) (d : Depot) : (lookUp g d).2.reading f = d.reading f := by
  rw [lookUp]
  split <;> rfl

theorem mem_of_mem_remember {g : String} (h : e ∈ (remember g b d).entries) :
    e ∈ d.entries ∨ d.Takes g b ∧ e = ⟨g, b, b.cost⟩ := by
  cases hc : d.cache
  case none   => simp [remember, entries, hc] at h
  case some c =>
    rw [entries_of_cache hc]
    refine (Cache.mem_of_mem_add ?_).imp id fun ⟨ht, he⟩ => ⟨⟨c, hc, ht⟩, he⟩
    simpa [remember, entries, hc] using h

theorem mem_remember_of_takes (h : d.Takes f b) : ⟨f, b, b.cost⟩ ∈ (remember f b d).entries := by
  have ⟨c, hc, ht⟩ := h
  simpa [remember, entries, hc] using Cache.mem_add_of_takes ht

theorem mem_forget : e ∈ (forget f d).entries ↔ e ∈ d.entries ∧ e.key ≠ f := by
  cases hc : d.cache
  case none   => simp [forget, entries, hc]
  case some c => simpa [forget, entries, hc] using Cache.mem_remove

theorem not_stale_forget (f : String) (d : Depot) : ¬(forget f d).Stale f :=
  fun ⟨_, hm, hk, _⟩ => (mem_forget.mp hm).right hk

@[simp]
theorem entries_onFiles (change : Files → Except FileError Files) (d : Depot) :
    (d.onFiles change).2.entries = d.entries := by
  rw [onFiles]
  split <;> rfl

theorem reading_onFiles {change : Files → Except FileError Files}
    (h : (d.onFiles change).1 ≠ .ok ()) (f : String) :
    (d.onFiles change).2.reading f = d.reading f := by
  rw [onFiles] at h ⊢
  split at h
  case h_1 => exact (h rfl).elim
  case h_2 => rfl

theorem Disturbs.entries (h : Disturbs f act) (d : Depot) :
    (act d).entries = d.entries := by
  cases h
  case fetch   => rfl
  case discard => exact entries_onFiles ..
  case place   => exact entries_onFiles ..
  case delete  => exact entries_onFiles ..

theorem Spoils.stale (h : d.Spoils f act) : (act d).Stale f := by
  cases h
  case late b ht hr      => exact ⟨_, mem_remember_of_takes ht, rfl, hr⟩
  case early hm hk hd hr => exact ⟨_, hd.entries d ▸ hm, hk, hr⟩

theorem Disturbs.spoils (h : Disturbs f act) (hs : (act d).Stale f) :
    d.Spoils f act :=
  have ⟨_, hm, hk, hn⟩ := hs
  .early h (h.entries d ▸ hm) hk hn

-- The action that leaves a stale entry behind, unless the file is forgotten next.
theorem Orderly.spoils {α : Type} {next : Depot → Routine Depot α}
    (h : Orderly (.step act next)) (hd : ¬d.Stale f) (hs : (act d).Stale f) :
    d.Spoils f act ∨ (next d).Awaits (Depot.forget f) := by
  cases h
  case look g _ =>
    exact (hd <| hs.of_subset (fun _ => mem_of_mem_lookUp g) (reading_lookUp g f d)).elim
  case read     => exact (hd hs).elim
  case keep g b _ =>
    have ⟨e, hm, hk, hn⟩ := hs
    rcases mem_of_mem_remember hm with hm | ⟨ht, rfl⟩
    · exact (hd ⟨e, hm, hk, hn⟩).elim
    · obtain rfl : g = f := hk
      exact .inl <| .late ht hn
  case forget g _  => exact (hd <| hs.of_subset (fun _ h => (mem_forget.mp h).left) rfl).elim
  case fetch s g _ => exact .inl <| Disturbs.fetch s g |>.spoils hs
  case discard g _ => exact .inl <| Disturbs.discard g |>.spoils hs
  case delete g _  => exact .inl <| Disturbs.delete g |>.spoils hs
  case place g _ ha =>
    by_cases hg : g = f
    case neg => exact .inl <| Disturbs.place hg |>.spoils hs
    case pos =>
      subst hg
      refine .inr <| ha d <| by_contra fun hn => hd ?_
      exact hs.of_subset (fun e h => entries_onFiles _ d ▸ h) (reading_onFiles hn g)

inductive Call where
  | load (f : String)
  | download (f : String)
  | remove (f : String)

-- What a call does. Only a load has buffers to give.
def Call.routine : Call → Routine Depot (Except RunnerError (Option Buffers))
  | load f => (·.map some) <$> Depot.load f
  | download f => (·.map fun _ => none) <$> Depot.download f
  | remove f => (·.map fun _ => none) <$> Depot.remove f

theorem Orderly.routine (k : Call) : Orderly k.routine := by
  cases k
  case load f     => exact (Orderly.load f).bind fun _ => .done _
  case download f => exact (Orderly.download f).bind fun _ => .done _
  case remove f   => exact (Orderly.remove f).bind fun _ => .done _

-- What is begun is a call.
def Begins (a : Crowd.Action Depot (Except RunnerError (Option Buffers))) : Prop :=
  ∀ p, a = .start p → ∃ k : Call, p = k.routine

theorem Begins.orderly {a : Crowd.Action Depot (Except RunnerError (Option Buffers))}
    (h : Begins a) : ∀ p, a = .start p → Orderly p := by
  intro p hp
  have ⟨k, hk⟩ := h p hp
  exact hk ▸ .routine k

theorem begins_start (k : Call) : Begins (.start k.routine) := fun _ h => ⟨k, by cases h; rfl⟩

theorem begins_advance (i : ℕ) : Begins (.advance i) := fun _ h => by cases h

section Crowd

variable {α : Type} {c c' : Crowd Depot α} {a : Crowd.Action Depot α} {i : ℕ}
  {next : Depot → Routine Depot α}

-- Some call is about to forget a file.
def Pending (c : Crowd Depot α) (f : String) : Prop := ∃ p ∈ c.routines, p.Awaits (forget f)

def Stranded (c : Crowd Depot α) (f : String) : Prop := c.state.Stale f ∧ ¬Pending c f

-- A call spoils an entry, and no call is about to forget the file then.
def Strands (c : Crowd Depot α) (f : String) (a : Crowd.Action Depot α) : Prop :=
  ∃ i act next, a = .advance i ∧ c.routines[i]? = some (.step act next) ∧ c.state.Spoils f act ∧
    ∀ p ∈ c.routines.set i (next c.state), ¬p.Awaits (forget f)

theorem orderly_of_step (h : c.Step a c') (hc : ∀ p ∈ c.routines, Orderly p)
    (ha : ∀ p, a = .start p → Orderly p) : ∀ p ∈ c'.routines, Orderly p := by
  cases h
  case start p =>
    exact List.forall_mem_append.mpr ⟨hc, List.forall_mem_singleton.mpr <| ha p rfl⟩
  case advance i act next hi =>
    have hn : ∀ d, Orderly (next d) := by
      cases hc _ <| List.mem_of_getElem? hi <;> assumption
    exact fun p hp => (List.mem_or_eq_of_mem_set hp).elim (hc p) fun h => h ▸ hn c.state

-- A call that is about to forget a file stays so until it has done it.
theorem not_pending_of_stranded (hi : c.routines[i]? = some (.step act next))
    (hs : Stranded ⟨act c.state, c.routines.set i (next c.state)⟩ f) : ¬Pending c f := by
  intro hp
  obtain ⟨p, hm, hp⟩ := hp
  have ⟨j, hj⟩ := List.mem_iff_getElem?.mp hm
  by_cases hij : i = j
  case pos =>
    subst hij
    cases hi.symm.trans hj
    obtain rfl : act = forget f := hp
    exact not_stale_forget f c.state hs.left
  case neg =>
    refine hs.right ⟨p, List.mem_iff_getElem?.mpr ⟨j, ?_⟩, hp⟩
    rwa [List.getElem?_set_ne hij]

theorem stranded_iff_of_step (h : c.Step a c') (hc : ∀ p ∈ c.routines, Orderly p)
    (hs : ¬Stranded c f) : Stranded c' f ↔ Strands c f a := by
  have hp : c.state.Stale f → Pending c f := fun h => by_contra fun hn => hs ⟨h, hn⟩
  cases h
  case start p =>
    refine ⟨fun ⟨hst, hn⟩ => (hn ?_).elim, fun ⟨_, _, _, h, _⟩ => by cases h⟩
    have ⟨q, hm, hq⟩ := hp hst
    exact ⟨q, List.mem_append_left _ hm, hq⟩
  case advance i act next hi =>
    constructor
    case mp =>
      intro hst
      have hn : ¬c.state.Stale f := fun h => not_pending_of_stranded hi hst (hp h)
      have ho := hc _ <| List.mem_of_getElem? hi
      refine ⟨i, act, next, rfl, hi, (ho.spoils hn hst.left).resolve_right fun h => ?_,
        fun p hm h => hst.right ⟨p, hm, h⟩⟩
      have hl := (List.getElem?_eq_some_iff.mp hi).choose
      exact hst.right ⟨_, List.mem_set hl _, h⟩
    case mpr =>
      rintro ⟨_, _, _, ha, hi', hsp, hn⟩
      cases ha
      cases hi.symm.trans hi'
      exact ⟨hsp.stale, fun ⟨p, hm, h⟩ => hn p hm h⟩

theorem not_pending_of_isQuiet (h : c.isQuiet) : ¬Pending c f := by
  rintro ⟨p, hm, hp⟩
  exact Routine.not_awaits_of_result? (List.all_eq_true.mp h p hm) _ hp

theorem not_stranded_iff (h : c.isQuiet) :
    ¬Stranded c f ↔ ∀ e ∈ c.state.entries, e.key = f → c.state.reading f = .ok e.buffers := by
  simp [Stranded, not_pending_of_isQuiet h, Stale]

theorem orderly_of_reachesBy {d : Depot} {c : Crowd Depot (Except RunnerError (Option Buffers))}
    (h : Crowd.machine.ReachesBy (fun _ => Begins) ⟨d, []⟩ c) : ∀ p ∈ c.routines, Orderly p :=
  h.preserves (I := fun c => ∀ p ∈ c.routines, Orderly p) (by simp) fun hc hb ha =>
    orderly_of_step (Crowd.step_of_act ha) hc hb.orderly

end Crowd

theorem load_alone (h : ∀ e ∈ d.entries, e.key = f → d.reading f = .ok e.buffers) :
    ((load f).alone d).1 = (d.reading f).mapError .part := by
  simp only [load, Routine.alone_bind, Routine.alone_atomic]
  cases hb : (lookUp f d).1
  case some b =>
    obtain ⟨e, hm, hk, rfl⟩ := lookUp_eq_some hb
    rw [h e hm hk]
    rfl
  case none =>
    rw [← reading_lookUp f f d, reading]
    simp only [Routine.alone_bind, Routine.alone_read]
    cases readArtifact (lookUp f d).2.files ((lookUp f d).2.path f) <;> rfl

-- Whatever calls are on their way: an entry becomes stranded by a step that spoils it while nobody
-- is about to forget it, and by no other step. When no call is on its way the cache agrees with the
-- file if and only if nothing is stranded, and then a load gives what the file has.
theorem stranded_iff_strands (d₀ : Depot) (f : String) (h₀ : ¬d₀.Stale f) :
    (∀ c c' a, Crowd.machine.ReachesBy (fun _ => Begins) ⟨d₀, []⟩ c →
      Crowd.machine.act c a = some c' → ¬Stranded c f → (Stranded c' f ↔ Strands c f a)) ∧
    (∀ c, Crowd.machine.ReachesBy (fun c a => Begins a ∧ ¬Strands c f a) ⟨d₀, []⟩ c →
      ¬Stranded c f) ∧
    ∀ c, Crowd.machine.ReachesBy (fun _ => Begins) ⟨d₀, []⟩ c → c.isQuiet →
      (¬Stranded c f ↔ ∀ e ∈ c.state.entries, e.key = f → c.state.reading f = .ok e.buffers) ∧
      (¬Stranded c f → ((load f).alone c.state).1 = (c.state.reading f).mapError .part) := by
  refine ⟨fun c c' a hr ha hs => ?_, fun c hr => ?_,
    fun c _ hq => ⟨not_stranded_iff hq, fun h => ?_⟩⟩
  case refine_1 => exact stranded_iff_of_step (Crowd.step_of_act ha) (orderly_of_reachesBy hr) hs
  case refine_2 =>
    have ⟨_, h⟩ := hr.preserves (I := fun c => (∀ p ∈ c.routines, Orderly p) ∧ ¬Stranded c f)
      ⟨by simp, fun h => h₀ h.left⟩ fun ⟨hc, hs⟩ ⟨hb, hn⟩ ha => by
        have ha := Crowd.step_of_act ha
        exact ⟨orderly_of_step ha hc hb.orderly, mt (stranded_iff_of_step ha hc hs).mp hn⟩
    exact h
  case refine_3 => exact load_alone <| (not_stranded_iff hq).mp h

-- A depot with an artifact, and a source that has a newer one.
def renewable : Depot where
  localDir := "local"
  descriptorDir := "local"
  attempts := 1
  allowed := true
  source := some (.series [.write (Bytes.ofText "new")])
  cache := some (.ofBudget 1000)
  files := ⟨.ofList [("local", .dir), ("local/m.bin", .file (Bytes.ofText "old"))]⟩
  asked := []
  models := ∅

-- A download that is the second call, from its first action to its last.
def renewal : List (Crowd.Action Depot (Except RunnerError (Option Buffers))) :=
  .start (Call.download "m.bin").routine :: .replicate 5 (.advance 1)

theorem begins_renewal : ∀ a ∈ renewal, Begins a := by
  simp [renewal, begins_start, begins_advance]

-- A load adds what it has read before a download put the newer artifact in its place.
theorem late_load_strands :
    ¬renewable.Stale "m.bin" ∧ ∃ c c' : Crowd Depot _,
      Crowd.machine.ReachesBy (fun _ => Begins) ⟨renewable, []⟩ c ∧
      Crowd.machine.act c (.advance 0) = some c' ∧
      ¬Stranded c "m.bin" ∧ Stranded c' "m.bin" ∧ Strands c "m.bin" (.advance 0) := by
  let old : Buffers := .ofList [("m.bin", Bytes.ofText "old")]
  have h₀ : ¬renewable.Stale "m.bin" := by
    rintro ⟨_, h, _⟩
    cases h
  have ⟨c, hr, hc⟩ := Machine.ReachesBy.exists_of_run (m := Crowd.machine) (s := ⟨renewable, []⟩)
    (p := Begins)
    (P := fun c => c.state.entries = [] ∧ (Crowd.machine.act c (.advance 0)).any fun c' =>
      c'.isQuiet && c'.state.entries = [⟨"m.bin", old, old.cost⟩] &&
        c'.state.reading "m.bin" ≠ .ok old)
    ([.start (Call.load "m.bin").routine, .advance 0, .advance 0] ++ renewal)
    (by decide +kernel) (List.forall_mem_append.mpr
      ⟨by simp [begins_start, begins_advance], begins_renewal⟩)
  simp only [decide_eq_true_eq] at hc
  have ⟨c', ha, hc'⟩ := Option.any_eq_true _ _ |>.mp hc.right
  simp only [Bool.and_eq_true, decide_eq_true_eq] at hc'
  have hn : ¬Stranded c "m.bin" := by
    rintro ⟨⟨_, h, _⟩, _⟩
    rw [hc.left] at h
    cases h
  have hs : Stranded c' "m.bin" := by
    by_contra h
    have h := (not_stranded_iff hc'.left.left).mp h
    exact hc'.right <| h _ (hc'.left.right ▸ List.mem_singleton.mpr rfl) rfl
  have h := (stranded_iff_strands renewable "m.bin" h₀).left c c' _ hr ha hn
  exact ⟨h₀, c, c', hr, ha, hn, hs, h.mp hs⟩

-- A load runs beside a download of its file, or loads it under another name and is done before.
theorem replaced_buffers_served :
    let stored (text : String) : Buffers := .ofList [("m.bin", Bytes.ofText text)]
    ∀ f ∈ ["m.bin", "./m.bin"], ∃ c : Crowd Depot _,
      Crowd.machine.ReachesBy (fun _ => Begins) ⟨renewable, []⟩ c ∧ c.isQuiet ∧
      c.state.reading f = .ok (stored "new") ∧
      ((load f).alone c.state).1 = .ok (stored "old") := by
  intro stored
  have hrun (f : String) (as) (h : (Crowd.machine.run ⟨renewable, []⟩ as).any fun c =>
      c.isQuiet && c.state.reading f = .ok (stored "new") &&
        ((load f).alone c.state).1 = .ok (stored "old")) (hb : ∀ a ∈ as, Begins a) :
      ∃ c : Crowd Depot _, Crowd.machine.ReachesBy (fun _ => Begins) ⟨renewable, []⟩ c ∧
        c.isQuiet ∧ c.state.reading f = .ok (stored "new") ∧
        ((load f).alone c.state).1 = .ok (stored "old") := by
    have ⟨c, hr, hc⟩ := Machine.ReachesBy.exists_of_run as h hb
    simp only [Bool.and_eq_true, decide_eq_true_eq] at hc
    exact ⟨c, hr, hc.left.left, hc.left.right, hc.right⟩
  simp only [List.forall_mem_cons]
  have hload (f : String) (n : ℕ) : ∀ a ∈ .start (Call.load f).routine :: .replicate n (.advance 0),
      Begins a := by
    simp [begins_start, begins_advance]
  refine ⟨hrun _ (.start (Call.load "m.bin").routine :: .replicate 2 (.advance 0) ++ renewal ++
      [.advance 0]) (by decide +kernel) ?_,
    hrun _ (.start (Call.load "./m.bin").routine :: .replicate 3 (.advance 0) ++ renewal)
      (by decide +kernel) ?_, by simp⟩
  all_goals simp only [List.forall_mem_append, List.forall_mem_singleton]
  · exact ⟨⟨hload _ 2, begins_renewal⟩, begins_advance 0⟩
  · exact ⟨hload _ 3, begins_renewal⟩

end Depot

end Inference
