import Inference.Proofs.Depot.Restoring

/-!
A download replaces an artifact as a whole or not at all. What a try has brought that comes to
nothing is thrown away before the next one, so the artifact is never made up of what several tries
have brought. Until a try delivers, the artifact and what is remembered of it stay as they are.

There is one exception to what a try brings: nothing is thrown away before the first try. What an
earlier download has left behind at the place for parts is taken for what this try has brought if
the source reports a success and has not written anything.
-/

namespace Inference

namespace Depot

-- The depot after a number of tries that came to nothing.
def retried (s : Source) (f : String) : ℕ → Depot → Depot
  | 0, d => d
  | n + 1, d => retried s f n (discardPart f (fetch s f d).2)

-- No file is at the place for parts.
def Partless (f : String) (d : Depot) : Prop := ∀ b, d.files.read (d.partPath f) ≠ .ok b

-- The tries before this one come to nothing, and this one does not.
def First (s : Source) (f : String) (d : Depot) (j : ℕ) : Prop :=
  (∀ i < j, ¬Delivers s f (retried s f i d)) ∧ Delivers s f (retried s f j d)

-- What a try has written, after so many others.
structure Writes (s : Source) (f : String) (d : Depot) (j : ℕ) (b : Bytes) : Prop where
  write   : s.deliver (retried s f j d).asked.length f (retried s f j d).files = .write b
  content : b ≠ []

-- What is at the place for parts from before, where the source writes nothing the first time.
structure LeftOver (s : Source) (f : String) (d : Depot) (b : Bytes) : Prop where
  nothing : s.deliver d.asked.length f d.files = .nothing
  part    : d.files.read (d.partPath f) = .ok b
  content : b ≠ []

-- How a download ends: with how many requests to the source, with which answer, and with what in
-- the place of the artifact.
inductive Ends (f : String) (d : Depot) : ℕ → Except RunnerError Unit → Option Bytes → Prop
  | disabled : d.allowed = false → Ends f d 0 (.error (.downloadsDisabled f)) none
  | sourceless : d.allowed → d.source = none → Ends f d 0 (.error (.noFetcher f)) none
  | exhausted {s} : d.allowed → d.source = some s →
      (∀ i < d.attempts, ¬Delivers s f (retried s f i d)) →
      Ends f d d.attempts (.error (.download f d.attempts)) none
  | unplaced {s j} : d.allowed → d.source = some s → j < d.attempts → First s f d j →
      ¬d.files.Admits (d.path f) → Ends f d (j + 1) (.error .io) none
  | placed {s j b} : d.allowed → d.source = some s → j < d.attempts → First s f d j →
      d.files.Admits (d.path f) → Writes s f d j b → Ends f d (j + 1) (.ok ()) (some b)
  | leftOver {s b} : d.allowed → d.source = some s → First s f d 0 →
      d.files.Admits (d.path f) → LeftOver s f d b → Ends f d 1 (.ok ()) (some b)

-- The artifact has been replaced, and nothing is remembered of it.
structure Replaced (f : String) (b : Bytes) (d d' : Depot) : Prop where
  file    : d'.files.read (d.path f) = .ok b
  entries : d'.entries = d.entries.filter (·.key ≠ f)

-- The artifact is as it was, and so is all that is remembered.
structure Kept (f : String) (d d' : Depot) : Prop where
  file  : ∀ n, d'.files.find (d.path f) = .ok n ↔ d.files.find (d.path f) = .ok n
  cache : d'.cache = d.cache

variable {d d' d'' : Depot} {f : String} {s : Source} {tries n : ℕ} {b : Bytes}

-- What tries leave behind that come to nothing.
structure Tries (f : String) (k : ℕ) (d d' : Depot) : Prop where
  frame : d' = { d with files := d'.files, asked := d.asked ++ .replicate k f }
  files : d.files.Confined (d.files.Leads (d.partPath f)) d'.files

theorem onFiles_frame (change : Files → Except FileError Files) (d : Depot) :
    (d.onFiles change).2 = { d with files := (d.onFiles change).2.files } := by
  rw [onFiles]
  split <;> rfl

theorem partless_discardPart (f : String) (d : Depot) : Partless f (discardPart f d) := by
  intro b hr
  rw [discardPart, onFiles] at hr
  split at hr
  case h_1 fs hfs =>
    have hd := (Files.confined_remove hfs).dirs
    obtain ⟨l, hl, ⟨c, hc⟩, rfl⟩ := Files.remove_eq_ok.mp hfs
    obtain ⟨l', hl', hb⟩ := Files.read_eq_ok.mp hr
    obtain rfl := hl.eq (hd.leads.mpr hl')
    rw [Files.node?_drop (by simp [hc]), if_pos rfl] at hb
    cases hb
  case h_2 e he =>
    obtain ⟨l, hl, hb⟩ := Files.read_eq_ok.mp hr
    have h := Files.remove_eq_ok.mpr ⟨l, hl, ⟨b, hb⟩, rfl⟩
    cases he.symm.trans h

theorem retried_succ (s : Source) (f : String) (n : ℕ) (d : Depot) :
    retried s f (n + 1) d = discardPart f (fetch s f (retried s f n d)).2 := by
  induction n generalizing d
  case zero       => rfl
  case succ n hi  => exact hi _

theorem partless_retried (hn : 0 < n) : Partless f (retried s f n d) := by
  obtain ⟨n, rfl⟩ := Nat.exists_eq_add_one.mpr hn
  rw [retried_succ]
  exact partless_discardPart f _

namespace Tries

variable {k : ℕ}

theorem zero (f : String) (d : Depot) : Tries f 0 d d where
  frame := by rw [List.replicate_zero, List.append_nil]
  files := .refl ..

theorem path (h : Tries f k d d') (g : String) : d'.path g = d.path g := by
  rw [Depot.path, h.frame]
  rfl

theorem partPath (h : Tries f k d d') : d'.partPath f = d.partPath f := h.path _

theorem confined {fs : Files} (h : Tries f k d d')
    (hc : d'.files.Confined (d'.files.Leads (d'.partPath f)) fs) :
    d.files.Confined (d.files.Leads (d.partPath f)) fs :=
  h.files.trans <| hc.imp fun _ hl => h.files.dirs.leads.mpr (h.partPath ▸ hl)

theorem fetch (h : Tries f k d d') (s : Source) :
    Tries f (k + 1) d (fetch s f d').2 where
  frame := by
    rw [Depot.fetch, h.frame]
    simp [List.replicate_succ']
  files := h.confined <| Files.confined_receive ..

theorem discard (h : Tries f k d d') : Tries f k d (discardPart f d') where
  frame := (onFiles_frame _ d').trans <|
    congrArg (fun x : Depot => { x with files := (discardPart f d').files }) h.frame
  files := by
    refine h.confined ?_
    rw [discardPart, onFiles]
    split
    case h_1 hc => exact Files.confined_remove hc
    case h_2    => exact .refl ..

theorem retried (s : Source) (f : String) (k : ℕ) (d : Depot) : Tries f k d (retried s f k d) := by
  induction k
  case zero      => exact .zero f d
  case succ k hi => exact retried_succ s f k d ▸ (hi.fetch s).discard

end Tries

theorem forall_not_delivers_succ : (∀ i < n + 1, ¬Delivers s f (retried s f i d)) ↔
    ¬Delivers s f d ∧ ∀ i < n, ¬Delivers s f (retried s f i (discardPart f (fetch s f d).2)) :=
  Nat.forall_lt_succ_left

-- A download goes on until a try delivers, or to the last try.
theorem alone_tryFetch_cases (s : Source) (f : String) (tries n : ℕ) (d : Depot) :
    (∃ j < n, First s f d j ∧
      (tryFetch s f tries n).alone d = (install f).alone (fetch s f (retried s f j d)).2) ∨
    (∀ i < n, ¬Delivers s f (retried s f i d)) ∧
      (tryFetch s f tries n).alone d = (.error (.download f tries), retried s f n d) := by
  induction n generalizing d
  case zero => exact .inr ⟨nofun, rfl⟩
  case succ n hi =>
    rw [alone_tryFetch]
    split
    case isTrue hd => exact .inl ⟨0, n.succ_pos, ⟨nofun, hd⟩, rfl⟩
    case isFalse hd =>
      rcases hi (discardPart f (fetch s f d).2) with ⟨j, hj, ⟨hn, hj'⟩, h⟩ | ⟨hn, h⟩
      case inl =>
        have hn := forall_not_delivers_succ.mpr ⟨hd, hn⟩
        exact .inl ⟨j + 1, Nat.succ_lt_succ hj, ⟨hn, hj'⟩, h⟩
      case inr => exact .inr ⟨forall_not_delivers_succ.mpr ⟨hd, hn⟩, h⟩

-- What is taken for an artifact has just been written, or else it was there before.
theorem Delivers.cases (h : Delivers s f d) :
    ∃ b, b ≠ [] ∧ (fetch s f d).2.files.read (d.partPath f) = .ok b ∧
      (s.deliver d.asked.length f d.files = .write b ∨
        s.deliver d.asked.length f d.files = .nothing ∧ d.files.read (d.partPath f) = .ok b) := by
  have ⟨ht, hp⟩ := h
  obtain ⟨b, hb, hne⟩ := Files.hasContent_iff.mp hp
  refine ⟨b, hne, hb, ?_⟩
  cases hx : s.deliver d.asked.length f d.files
  case refuse | spoil => simp [fetch, hx, Files.receive] at ht
  case nothing =>
    simp only [fetch, hx] at hb
    exact .inr ⟨rfl, hb⟩
  case write c =>
    simp only [fetch, hx, Files.receive] at hb ht
    cases hw : d.files.write (d.partPath f) c
    case error => simp [hw] at ht
    case ok fs =>
      simp only [hw] at hb
      have hc := Files.read_of_write hw
      cases hc.symm.trans hb
      exact .inl rfl

theorem First.brings {j : ℕ} (h : First s f d j) :
    ∃ b, (Writes s f d j b ∨ j = 0 ∧ LeftOver s f d b) ∧
      (fetch s f (retried s f j d)).2.files.read ((retried s f j d).partPath f) = .ok b := by
  obtain ⟨b, hne, hb, hx⟩ := h.right.cases
  rcases hx with hx | ⟨hx, hr⟩
  case inl => exact ⟨b, .inl ⟨hx, hne⟩, hb⟩
  case inr =>
    have hj : j = 0 := by_contra fun hj => partless_retried (Nat.pos_of_ne_zero hj) b hr
    subst hj
    exact ⟨b, .inr ⟨rfl, hx, hr, hne⟩, hb⟩

theorem entries_forget (f : String) (d : Depot) :
    (forget f d).entries = d.entries.filter (·.key ≠ f) := by
  cases hc : d.cache
  case none   => simp [forget, entries, hc]
  case some c => simpa [forget, entries, hc] using Cache.entries_remove c f

theorem alone_install_unplaced (h : ¬d.files.Admits (d.path f)) :
    (install f).alone d = (.error .io, d) := by
  simp only [alone_install, placePart, onFiles]
  cases hr : d.files.rename (d.partPath f) (d.path f)
  case error => rfl
  case ok    =>
    obtain ⟨_, _, l, hl, hd, _⟩ := Files.rename_eq_ok.mp hr
    exact (h ⟨l, hl, hd⟩).elim

theorem alone_install_frame (f : String) (d : Depot) :
    ((install f).alone d).2 = { d with
      cache := ((install f).alone d).2.cache, files := ((install f).alone d).2.files } := by
  simp only [alone_install, placePart, onFiles]
  cases d.files.rename (d.partPath f) (d.path f) <;> rfl

-- What is installed is the part, and all of it.
theorem replaced_install (hf : d.files.Admits (d.path f))
    (hp : d.files.read (d.partPath f) = .ok b) : ((install f).alone d).1 = .ok () ∧
      Replaced f b d ((install f).alone d).2 ∧ Partless f ((install f).alone d).2 := by
  have ⟨hok, hr⟩ := restored_install hf hp
  refine ⟨hok, ⟨hr.file, ?_⟩, fun c hc => ?_⟩
  · rw [alone_install] at hok ⊢
    split at hok
    case h_1 => exact (entries_forget ..).trans (by rw [placePart, entries_onFiles])
    case h_2 => cases hok
  · rw [Files.read, hr.part] at hc
    cases hc

theorem Tries.kept {k : ℕ} (h : Tries f k d d') : Kept f d d' where
  file _ := h.files.find_iff fun _ hl => leads_part_ne hl
  cache  := congrArg (·.cache) h.frame

-- What a download makes of a depot.
structure Replacement (f : String) (d : Depot) (answer : Except RunnerError Unit) (d' : Depot) :
    Prop where
  ends  : ∃ k new, Ends f d k answer new ∧ k ≤ d.attempts ∧
    d' = { d with cache := d'.cache, files := d'.files, asked := d.asked ++ .replicate k f } ∧
    match new with
    | some b => Replaced f b d d'
    | none   => Kept f d d'
  files : d.files.Confined (fun l => ∃ p ∈ d.paths f, d.files.Leads p l) d'.files
  part  : answer = .ok () ∨ answer = .error (.download f d.attempts) → Partless f d'

namespace Tries

variable {answer : Except RunnerError Unit} {k : ℕ}

theorem admits (h : Tries f k d d') :
    d'.files.Admits (d'.path f) ↔ d.files.Admits (d.path f) := by
  rw [h.path]
  exact h.files.dirs.admits.symm

-- A download that fails has tried only.
theorem replacement (h : Tries f k d d') (he : Ends f d k answer none) (hk : k ≤ d.attempts)
    (hp : answer = .ok () ∨ answer = .error (.download f d.attempts) → Partless f d') :
    Replacement f d answer d' where
  ends  := ⟨k, none, he, hk, h.frame.trans (by rw [h.kept.cache]), h.kept⟩
  files := h.files.imp fun _ hl => ⟨_, by simp [paths], hl⟩
  part  := hp

-- A download that does not fail has installed what the last try has brought.
theorem installed (h : Tries f k d d') (hd : (install f).alone d' = (answer, d''))
    (hi : d.files.Admits (d.path f)) (hr : d'.files.read (d'.partPath f) = .ok b) :
    answer = .ok () ∧
      d'' = { d with cache := d''.cache, files := d''.files, asked := d.asked ++ .replicate k f } ∧
      Replaced f b d d'' ∧ Partless f d'' := by
  have hf := alone_install_frame f d'
  have ⟨ha, hR, hp⟩ := replaced_install (h.admits.mpr hi) hr
  rw [hd] at hf ha hR hp
  refine ⟨ha, ?_, ⟨h.path f ▸ hR.file, ?_⟩, hp⟩
  · exact hf.trans <| congrArg
      (fun x : Depot => { x with cache := d''.cache, files := d''.files }) h.frame
  · rw [hR.entries, h.frame]
    rfl

end Tries

theorem replacement_download (f : String) (d : Depot) (h : 0 < d.attempts) :
    Replacement f d ((download f).alone d).1 ((download f).alone d).2 := by
  have hd := alone_download f d
  have ht := Tries.zero f d
  cases ha : d.allowed <;> cases hs : d.source <;> simp only [ha, hs] at hd
  case true.some s =>
    rcases alone_tryFetch_cases s f d.attempts d.attempts d with ⟨j, hj, hf, he⟩ | ⟨hn, he⟩
    case inl =>
      have ht := (Tries.retried s f j d).fetch s
      have ⟨b, hb, hr⟩ := hf.brings
      rw [(Tries.retried s f j d).partPath, ← ht.partPath] at hr
      rw [hd, he]
      by_cases hi : d.files.Admits (d.path f)
      case neg =>
        rw [alone_install_unplaced (ht.admits.not.mpr hi)]
        exact ht.replacement (.unplaced ha hs hj hf hi) hj (by simp)
      case pos =>
        have hc := (touches_download f d).files
        rw [hd, he] at hc
        rcases hx : (install f).alone (fetch s f (retried s f j d)).2 with ⟨answer, d'⟩
        obtain ⟨rfl, hf', hR, hp⟩ := ht.installed hx hi hr
        have he : Ends f d (j + 1) (.ok ()) (some b) := by
          rcases hb with hw | ⟨rfl, hl⟩
          · exact .placed ha hs hj hf hi hw
          · exact .leftOver ha hs hf hi hl
        exact ⟨⟨j + 1, some b, he, hj, hf', hR⟩, hx ▸ hc, fun _ => hp⟩
    case inr =>
      rw [hd, he]
      exact (Tries.retried s f d.attempts d).replacement (.exhausted ha hs hn) le_rfl
        fun _ => partless_retried h
  all_goals rw [hd]
  case true.none => exact ht.replacement (.sourceless ha hs) (Nat.zero_le _) (by simp)
  all_goals exact ht.replacement (.disabled ha) (Nat.zero_le _) (by simp)

-- What is in the place of the artifact after a success.
theorem Replacement.placed {answer : Except RunnerError Unit} (h : Replacement f d answer d')
    (ha : answer = .ok ()) : ∃ s b, d.source = some s ∧ Replaced f b d d' ∧
      ((∃ j < d.attempts, First s f d j ∧ Writes s f d j b) ∨ LeftOver s f d b) := by
  obtain ⟨_, _, he, _, _, hR⟩ := h.ends
  subst ha
  match he with
  | .placed _ hs hj hf _ hw  => exact ⟨_, _, hs, hR, .inl ⟨_, hj, hf, hw⟩⟩
  | .leftOver _ hs _ _ hl    => exact ⟨_, _, hs, hR, .inr hl⟩

-- Whatever the source does and whatever the files and the cache are: a download asks the source
-- until a try delivers, or until there is none left. It puts all that was brought into the place of
-- the artifact and forgets the old one, or it leaves both as they are. Nothing else is changed, but
-- for the place for parts. What was brought is what the try has written that delivers, except where
-- something was left at the place for parts and the source has added nothing to it.
theorem download_replaces (f : String) (d : Depot) (h : 0 < d.attempts) :
    Replacement f d ((download f).alone d).1 ((download f).alone d).2 ∧
    (((download f).alone d).1 = .ok () →
      ∃ s b, d.source = some s ∧ Replaced f b d ((download f).alone d).2 ∧
        ((∃ j < d.attempts, First s f d j ∧ Writes s f d j b) ∨ LeftOver s f d b)) :=
  have hr := replacement_download f d h
  ⟨hr, hr.placed⟩

-- Something is left of an earlier download, the source fails half-way, and then it writes nothing.
def faltering : Depot :=
  let stored (text : String) : Buffers := .ofList [("m.bin", Bytes.ofText text)]
  { renewable with
    attempts := 4
    source := some (.series [.spoil (Bytes.ofText "ne"), .write [], .write (Bytes.ofText "new")])
    cache := some (((Cache.ofBudget 1000).add "m.bin" (stored "old")).2.add "n.bin" (stored "n")).2
    files := ⟨.ofList [("local", .dir), ("local/m.bin", .file (Bytes.ofText "old")),
      ("local/m.bin.part", .file (Bytes.ofText "left"))]⟩ }

theorem third_try_replaces : ∃ d', (download "m.bin").alone faltering = (.ok (), d') ∧
    0 < faltering.attempts ∧ Replacement "m.bin" faltering (.ok ()) d' ∧
    (∃ s b, faltering.source = some s ∧ Replaced "m.bin" b faltering d' ∧
      ∃ j < 4, First s "m.bin" faltering j ∧ Writes s "m.bin" faltering j b) ∧
    d'.asked = ["m.bin", "m.bin", "m.bin"] ∧ d'.entries.map (·.key) = ["n.bin"] ∧
    d'.files = ⟨.ofList [("local", .dir), ("local/m.bin", .file (Bytes.ofText "new"))]⟩ := by
  have ⟨hr, hp⟩ := download_replaces "m.bin" faltering (by decide)
  have ho : ((download "m.bin").alone faltering).1 = .ok () ∧
      ((download "m.bin").alone faltering).2.asked = ["m.bin", "m.bin", "m.bin"] ∧
      ((download "m.bin").alone faltering).2.entries.map (·.key) = ["n.bin"] ∧
      ((download "m.bin").alone faltering).2.files =
        ⟨.ofList [("local", .dir), ("local/m.bin", .file (Bytes.ofText "new"))]⟩ := by
    decide +kernel
  obtain ⟨s, b, hs, hR, hw⟩ := hp ho.left
  have hn : ¬LeftOver s "m.bin" faltering b := by
    cases hs
    exact fun hl => absurd hl.nothing (by decide)
  rw [ho.left] at hr
  exact ⟨_, Prod.ext ho.left rfl, by decide, hr, ⟨s, b, hs, hR, hw.resolve_right hn⟩, ho.right⟩

-- Something is left of an earlier download, and the source does nothing.
def idling : Depot :=
  { renewable with
    attempts := 1
    source := some (.series [.nothing])
    files := ⟨.ofList [("local", .dir), ("local/m.bin", .file (Bytes.ofText "old")),
      ("local/m.bin.part", .file (Bytes.ofText "left"))]⟩ }

-- What replaces the artifact was not written by any try of the download.
theorem left_over_part_placed : ∃ s d', idling.source = some s ∧ 0 < idling.attempts ∧
    (download "m.bin").alone idling = (.ok (), d') ∧ d'.asked = ["m.bin"] ∧
    Replaced "m.bin" (Bytes.ofText "left") idling d' ∧ ∀ j b, ¬Writes s "m.bin" idling j b := by
  have hr := replacement_download "m.bin" idling (by decide)
  have ho : ((download "m.bin").alone idling).1 = .ok () ∧
      ((download "m.bin").alone idling).2.asked = ["m.bin"] := by
    decide +kernel
  have hn : ∀ j b, ¬Writes (.series [.nothing]) "m.bin" idling j b := by
    rintro j b ⟨hw, -⟩
    simp only [Source.series, List.getElem?_singleton] at hw
    split at hw <;> cases hw
  obtain ⟨s, b, hs, hR, hb⟩ := hr.placed ho.left
  cases hs
  refine ⟨_, _, rfl, by decide, Prod.ext ho.left rfl, ho.right, ?_, hn⟩
  rcases hb with ⟨j, -, -, hw⟩ | hl
  · exact (hn j b hw).elim
  · have hp : idling.files.read (idling.partPath "m.bin") = .ok (Bytes.ofText "left") := by
      decide +kernel
    cases hl.part.symm.trans hp
    exact hR

end Depot
end Inference
