import Inference.Proofs.Depot.Alone
import Inference.Proofs.Serving
import Mathlib.Data.Set.Defs

/-!
Nobody sees the cache of a depot that is used by one caller at a time. A call changes the files of
its own name only, so an entry of the cache agrees with its file until a call of this very name
changes the file, and then the entry is forgotten.
-/

namespace Inference

-- What is read from a file that is not empty.
def artifact (path : String) (b : Bytes) : Buffers :=
  .ofList [((FilePath.fileName? path).getD "", b)]

theorem readArtifact_eq_ok {fs : Files} {path : String} {buffers : Buffers} :
    readArtifact fs path = .ok buffers ↔
      ∃ b, fs.read path = .ok b ∧ b ≠ [] ∧ artifact path b = buffers := by
  rw [readArtifact]
  rcases fs.read path with _ | _ | ⟨x, b⟩ <;> simp [artifact]

theorem Files.confined_receive (fs : Files) (path : String) (x : Delivery) :
    fs.Confined (fs.Leads path) (fs.receive path x).2 := by
  cases x
  case refuse | nothing => exact .refl ..
  case write b | spoil b =>
    rw [receive]
    cases hb : fs.write path b
    case error => exact .refl ..
    case ok    => exact confined_write hb

namespace Depot

variable {d d' d'' : Depot} {f g : String} {s : Source} {tries n : ℕ} {b : Buffers}

theorem partPath_eq (d : Depot) (f : String) : d.partPath f = d.path f ++ ".part" :=
  FilePath.join_append _ _ (by decide)

-- Nothing is remembered anew, and the files change at most where certain paths lead to.
structure Touches (paths : List String) (d d' : Depot) : Prop where
  dir     : d'.localDir = d.localDir
  files   : d.files.Confined (fun l => ∃ p ∈ paths, d.files.Leads p l) d'.files
  entries : ∀ e ∈ d'.entries, e ∈ d.entries

namespace Touches

variable {paths paths' : List String}

theorem path (h : Touches paths d d') (f : String) : d'.path f = d.path f := by
  rw [Depot.path, Depot.path, h.dir]

theorem refl (paths : List String) (d : Depot) : Touches paths d d :=
  ⟨rfl, .refl _ _, fun _ => id⟩

theorem trans (h : Touches paths d d') (h' : Touches paths d' d'') : Touches paths d d'' where
  dir     := h'.dir.trans h.dir
  files   := h.files.trans <| h'.files.imp fun _ ⟨p, hp, hl⟩ => ⟨p, hp, h.files.dirs.leads.mpr hl⟩
  entries := fun e he => h.entries e (h'.entries e he)

theorem mono (h : Touches paths d d') (hp : ∀ p ∈ paths, p ∈ paths') : Touches paths' d d' :=
  ⟨h.dir, h.files.imp fun _ ⟨p, hm, hl⟩ => ⟨p, hp p hm, hl⟩, h.entries⟩

-- An entry agrees with its file as long as the file is not touched.
theorem not_stale (h : Touches paths d d') (hs : ¬d.Stale f)
    (hp : ∀ p ∈ paths, ∀ l, d.files.Leads (d.path f) l → ¬d.files.Leads p l) : ¬d'.Stale f := by
  rintro ⟨e, hm, hk, hn⟩
  refine hs ⟨e, h.entries e hm, hk, fun hr => hn ?_⟩
  have ⟨b, hb, hne, ha⟩ := readArtifact_eq_ok.mp hr
  have hb := h.files.read (fun l hl ⟨p, hm, hl'⟩ => hp p hm l hl hl') hb
  rw [reading, h.path f]
  exact readArtifact_eq_ok.mpr ⟨b, hb, hne, ha⟩

end Touches

theorem touches_onFiles {change : Files → Except FileError Files} {paths : List String}
    (h : ∀ fs, change d.files = .ok fs →
      d.files.Confined (fun l => ∃ p ∈ paths, d.files.Leads p l) fs) :
    Touches paths d (d.onFiles change).2 := by
  rw [onFiles]
  split
  case h_1 hc => exact ⟨rfl, h _ hc, fun _ => id⟩
  case h_2    => exact .refl ..

theorem touches_fetch (s : Source) (g : String) (d : Depot) :
    Touches [d.partPath g] d (fetch s g d).2 where
  dir     := rfl
  files   := (Files.confined_receive ..).imp fun _ hl => ⟨_, List.mem_singleton.mpr rfl, hl⟩
  entries := fun _ => id

theorem touches_discardPart (g : String) (d : Depot) :
    Touches [d.partPath g] d (discardPart g d) :=
  touches_onFiles fun _ h =>
    (Files.confined_remove h).imp fun _ hl => ⟨_, List.mem_singleton.mpr rfl, hl⟩

theorem touches_placePart (g : String) (d : Depot) :
    Touches [d.path g, d.partPath g] d (placePart g d).2 :=
  touches_onFiles fun _ h => (Files.confined_rename h).imp fun _ hl =>
    hl.elim (fun h => ⟨_, by simp, h⟩) fun h => ⟨_, by simp, h⟩

theorem touches_deleteFile (g : String) (d : Depot) : Touches [d.path g] d (deleteFile g d).2 :=
  touches_onFiles fun _ h =>
    (Files.confined_remove h).imp fun _ hl => ⟨_, List.mem_singleton.mpr rfl, hl⟩

theorem touches_forget (paths : List String) (g : String) (d : Depot) :
    Touches paths d (forget g d) :=
  ⟨rfl, .refl .., fun _ h => (mem_forget.mp h).left⟩

-- The paths that a call touches.
def paths (d : Depot) (g : String) : List String := [d.path g, d.partPath g]

theorem Touches.paths_eq {l : List String} (h : Touches l d d') (g : String) :
    d'.paths g = d.paths g := by
  simp [paths, partPath, h.path]

theorem touches_install (g : String) (d : Depot) :
    Touches (d.paths g) d ((install g).alone d).2 := by
  rw [alone_install]
  cases (placePart g d).1
  case ok    => exact (touches_placePart g d).trans <| touches_forget ..
  case error => exact touches_placePart g d

-- A try that comes to nothing touches the part only.
theorem touches_retry (s : Source) (g : String) (d : Depot) :
    Touches [d.partPath g] d (discardPart g (fetch s g d).2) :=
  (touches_fetch s g d).trans <| touches_discardPart g (fetch s g d).2

theorem touches_tryFetch (s : Source) (g : String) (tries n : ℕ) (d : Depot) :
    Touches (d.paths g) d ((tryFetch s g tries n).alone d).2 := by
  induction n generalizing d
  case zero => exact .refl ..
  case succ n hi =>
    rw [alone_tryFetch]
    split
    case isTrue =>
      have hf := touches_fetch s g d
      have h := touches_install g (fetch s g d).2
      rw [hf.paths_eq] at h
      exact (hf.mono (by simp [paths])).trans h
    case isFalse =>
      have hr := touches_retry s g d
      have h := hi (discardPart g (fetch s g d).2)
      rw [hr.paths_eq] at h
      exact (hr.mono (by simp [paths])).trans h

theorem touches_download (g : String) (d : Depot) :
    Touches (d.paths g) d ((download g).alone d).2 := by
  rw [alone_download]
  rcases d.allowed with _ | _ <;> rcases d.source with _ | s
  case true.some => exact touches_tryFetch ..
  all_goals exact .refl ..

theorem touches_remove (g : String) (d : Depot) :
    Touches (d.paths g) d ((remove g).alone d).2 := by
  rw [alone_remove]
  exact (touches_forget _ g d).trans <| (touches_deleteFile g (forget g d)).mono <|
    List.forall_mem_singleton.mpr (.head _)

theorem leads_part_ne {l : String} (h : d.files.Leads (d.path f) l) :
    ¬d.files.Leads (d.partPath f) l := by
  intro h'
  rw [partPath_eq] at h'
  exact Files.Leads.ne_append (by decide) (by decide) h h' rfl

-- A download forgets what it replaces.
theorem not_stale_install (h : ¬d.Stale f) : ¬((install f).alone d).2.Stale f := by
  rw [alone_install]
  cases hp : (placePart f d).1
  case ok => exact not_stale_forget f _
  case error =>
    have hr := reading_onFiles (fun h => nomatch hp.symm.trans h) f
    exact fun hs => h <| hs.of_subset (fun e he => entries_onFiles _ d ▸ he) hr

theorem not_stale_tryFetch (h : ¬d.Stale f) : ¬((tryFetch s f tries n).alone d).2.Stale f := by
  have hp {d : Depot} : ∀ p ∈ [d.partPath f], ∀ l, d.files.Leads (d.path f) l →
      ¬d.files.Leads p l := by
    intro p hm l hl
    rw [List.mem_singleton.mp hm]
    exact leads_part_ne hl
  induction n generalizing d
  case zero => exact h
  case succ n hi =>
    rw [alone_tryFetch]
    split
    case isTrue  => exact not_stale_install <| (touches_fetch s f d).not_stale h hp
    case isFalse => exact hi <| (touches_retry s f d).not_stale h hp

theorem not_stale_download (h : ¬d.Stale f) : ¬((download f).alone d).2.Stale f := by
  rw [alone_download]
  rcases d.allowed with _ | _ <;> rcases d.source with _ | s
  case true.some => exact not_stale_tryFetch h
  all_goals exact h

theorem not_stale_remove (f : String) (d : Depot) : ¬((remove f).alone d).2.Stale f := by
  rw [alone_remove]
  rintro ⟨e, hm, hk, _⟩
  exact (mem_forget.mp ((touches_deleteFile f (forget f d)).entries e hm)).right hk

theorem not_stale_load (g : String) (h : ¬d.Stale f) : ¬((load g).alone d).2.Stale f := by
  have hl : ¬(lookUp g d).2.Stale f := fun hs =>
    h <| hs.of_subset (fun _ => mem_of_mem_lookUp g) (reading_lookUp g f d)
  rw [alone_load]
  split
  case h_1 => exact hl
  case h_3 => exact hl
  case h_2 b _ hr =>
    rintro ⟨e, hm, hk, hn⟩
    rcases mem_of_mem_remember hm with hm | ⟨_, rfl⟩
    · exact hl ⟨e, hm, hk, hn⟩
    · obtain rfl : g = f := hk
      exact hn hr

-- The depot as it is without its cache.
def uncached (d : Depot) : Depot := { d with cache := none }

theorem eq_of_uncached_eq (h : d'.uncached = d.uncached) : d' = { d with cache := d'.cache } := by
  cases d
  cases d'
  simpa [uncached] using h

theorem not_stale_uncached (f : String) (d : Depot) : ¬d.uncached.Stale f := by
  rintro ⟨_, hm, _⟩
  cases hm

theorem onFiles_uncached (change : Files → Except FileError Files) (d : Depot) :
    d.uncached.onFiles change = ((d.onFiles change).1, (d.onFiles change).2.uncached) := by
  simp only [onFiles, uncached]
  cases change d.files <;> rfl

theorem alone_install_uncached (f : String) (d : Depot) : (install f).alone d.uncached =
    (((install f).alone d).1, ((install f).alone d).2.uncached) := by
  have hp : placePart f d.uncached = ((placePart f d).1, (placePart f d).2.uncached) :=
    onFiles_uncached ..
  simp only [alone_install, hp]
  cases (placePart f d).1 <;> rfl

theorem alone_tryFetch_uncached (s : Source) (f : String) (tries n : ℕ) (d : Depot) :
    (tryFetch s f tries n).alone d.uncached =
      (((tryFetch s f tries n).alone d).1, ((tryFetch s f tries n).alone d).2.uncached) := by
  induction n generalizing d
  case zero => rfl
  case succ n hi =>
    have hf : fetch s f d.uncached = ((fetch s f d).1, (fetch s f d).2.uncached) := rfl
    have hd : discardPart f (fetch s f d).2.uncached = (discardPart f (fetch s f d).2).uncached :=
      congrArg Prod.snd (onFiles_uncached ..)
    have hg : Delivers s f d.uncached ↔ Delivers s f d := .rfl
    simp only [alone_tryFetch, hf, hd, hg, alone_install_uncached, hi]
    split <;> rfl

theorem alone_download_uncached (f : String) (d : Depot) : (download f).alone d.uncached =
    (((download f).alone d).1, ((download f).alone d).2.uncached) := by
  have ha : d.uncached.allowed = d.allowed := rfl
  have hs : d.uncached.source = d.source := rfl
  simp only [alone_download, ha, hs]
  rcases d.allowed with _ | _ <;> rcases d.source with _ | s
  case true.some => exact alone_tryFetch_uncached ..
  all_goals rfl

theorem alone_remove_uncached (f : String) (d : Depot) : (remove f).alone d.uncached =
    (((remove f).alone d).1, ((remove f).alone d).2.uncached) := by
  have hd : deleteFile f (forget f d.uncached) =
      ((deleteFile f (forget f d)).1, (deleteFile f (forget f d)).2.uncached) :=
    onFiles_uncached _ (forget f d)
  simp only [alone_remove, hd]

theorem uncached_alone_load (f : String) (d : Depot) :
    ((load f).alone d).2.uncached = d.uncached := by
  have hl : (lookUp f d).2.uncached = d.uncached := by
    rw [lookUp]
    split <;> rfl
  rw [alone_load]
  split <;> exact hl

theorem load_alone_of_not_stale (h : ¬d.Stale f) :
    ((load f).alone d).1 = (d.reading f).mapError .part :=
  load_alone (by simpa [Stale] using h)

theorem alone_load_uncached (h : ¬d.Stale f) : (load f).alone d.uncached =
    (((load f).alone d).1, ((load f).alone d).2.uncached) := by
  have hs : ((load f).alone d.uncached).2 = d.uncached := by
    rw [alone_load]
    split <;> rfl
  rw [uncached_alone_load, load_alone_of_not_stale h]
  exact Prod.ext (load_alone_of_not_stale (not_stale_uncached f d)) hs

def Call.file : Call → String
  | load f     => f
  | download f => f
  | remove f   => f

-- What a caller may ask for, one thing after the other.
inductive Request where
  | call (k : Call)
  | setAllowed (allowed : Bool)

def Request.serve : Request → StateM Depot (Except RunnerError (Option Buffers))
  | call k, d             => k.routine.alone d
  | setAllowed allowed, d => (.ok none, d.setAllowed allowed)

-- The names are those of different files, and no file stands where the part of another one is put.
structure Apart (names : Set String) (d : Depot) : Prop where
  files : ∀ f ∈ names, ∀ g ∈ names, f ≠ g → ∀ l, d.files.Leads (d.path f) l →
    ¬d.files.Leads (d.path g) l
  parts : ∀ f ∈ names, ∀ g ∈ names, f ≠ g → ∀ l, d.files.Leads (d.path f) l →
    ¬d.files.Leads (d.partPath g) l

-- No entry of one of the names is stale, and none can become so by a call of another name.
structure Sound (names : Set String) (d : Depot) : Prop where
  apart : Apart names d
  fresh : ∀ f ∈ names, ¬d.Stale f

namespace Sound

variable {names : Set String}

theorem of_cache (h : Apart names d) (hc : d.entries = []) : Sound names d :=
  ⟨h, fun _ _ ⟨_, hm, _⟩ => by simp [hc] at hm⟩

theorem touches (h : Sound names d) (hg : g ∈ names) (ht : Touches (d.paths g) d d')
    (hs : ¬d'.Stale g) : Sound names d' := by
  have hl {p l} : d'.files.Leads p l ↔ d.files.Leads p l := ht.files.dirs.leads.symm
  refine ⟨⟨?_, ?_⟩, fun f hf => ?_⟩
  · simpa only [hl, ht.path] using h.apart.files
  · simpa only [hl, partPath, ht.path] using h.apart.parts
  by_cases hfg : f = g
  case pos => exact hfg ▸ hs
  case neg =>
    refine ht.not_stale (h.fresh f hf) ?_
    refine List.forall_mem_cons.mpr ⟨?_, List.forall_mem_singleton.mpr ?_⟩
    · exact h.apart.files f hf g hg hfg
    · exact h.apart.parts f hf g hg hfg

theorem load (h : Sound names d) (g : String) : Sound names ((load g).alone d).2 where
  apart := by
    rw [eq_of_uncached_eq (uncached_alone_load g d)]
    exact ⟨h.apart.files, h.apart.parts⟩
  fresh f hf := not_stale_load g (h.fresh f hf)

theorem serve (h : Sound names d) (r : Request) (hr : ∀ k, r = .call k → k.file ∈ names) :
    Sound names (r.serve d).2 := by
  cases r
  case setAllowed => exact ⟨⟨h.apart.files, h.apart.parts⟩, h.fresh⟩
  case call k =>
    have hk := hr k rfl
    simp only [Request.serve]
    cases k <;> simp only [Call.routine, Routine.alone_map]
    case load g => exact h.load g
    case download g =>
      exact h.touches hk (touches_download g d) (not_stale_download (h.fresh g hk))
    case remove g => exact h.touches hk (touches_remove g d) (not_stale_remove g d)

end Sound

theorem serve_uncached (r : Request) (hr : ∀ k, r = .call k → ¬d.Stale k.file) :
    r.serve d.uncached = ((r.serve d).1, (r.serve d).2.uncached) := by
  cases r
  case setAllowed => rfl
  case call k =>
    have hs := hr k rfl
    simp only [Request.serve]
    cases k <;> simp only [Call.routine, Routine.alone_map]
    case load g     => rw [alone_load_uncached (f := g) hs]
    case download g => rw [alone_download_uncached]
    case remove g   => rw [alone_remove_uncached]

-- With a cache that is empty at first and without one the requests of a caller get the same answers
-- and leave the same files.
theorem cache_unseen (d : Depot) (budget : ℕ) (names : Set String) (hn : Apart names d)
    (rs : List Request) (hr : ∀ k, .call k ∈ rs → k.file ∈ names) :
    let cached := rs.mapM Request.serve { d with cache := some (.ofBudget budget) }
    let plain := rs.mapM Request.serve { d with cache := none }
    cached.1 = plain.1 ∧ cached.2.files = plain.2.files := by
  let R (d d' : Depot) : Prop := Sound names d ∧ d' = d.uncached
  have h₀ : R { d with cache := some (.ofBudget budget) } { d with cache := none } :=
    ⟨.of_cache ⟨hn.files, hn.parts⟩ rfl, rfl⟩
  have hk {r} (h : r ∈ rs) : ∀ k, r = .call k → k.file ∈ names := fun k hk => hr k (hk ▸ h)
  have hu {r} (h : r ∈ rs) (d : Depot) (hd : Sound names d) :
      r.serve d.uncached = ((r.serve d).1, (r.serve d).2.uncached) :=
    serve_uncached r fun k hrk => hd.fresh _ (hk h k hrk)
  have hR : ∀ r ∈ rs, ∀ d d', R d d' → R (r.serve d).2 (r.serve d').2 := by
    rintro r h d _ ⟨hd, rfl⟩
    exact ⟨hd.serve r (hk h), by rw [hu h d hd]⟩
  have ha : ∀ r ∈ rs, ∀ d d', R d d' → (r.serve d).1 = (r.serve d').1 := by
    rintro r h d _ ⟨hd, rfl⟩
    rw [hu h d hd]
  have ⟨_, hf⟩ := Serving.related h₀ hR
  exact ⟨Serving.answers_eq h₀ hR ha, by rw [hf]; rfl⟩

theorem apart_of_leads {names : List String} (file part : String → String)
    (hf : ∀ f ∈ names, d.files.Leads (d.path f) (file f))
    (hp : ∀ f ∈ names, d.files.Leads (d.partPath f) (part f))
    (hn : ∀ f ∈ names, ∀ g ∈ names, f ≠ g → file f ≠ file g ∧ file f ≠ part g) :
    Apart {f | f ∈ names} d where
  files f hfm g hgm hne _ hl hl' :=
    (hn f hfm g hgm hne).left <| ((hf f hfm).eq hl).trans (hl'.eq (hf g hgm))
  parts f hfm g hgm hne _ hl hl' :=
    (hn f hfm g hgm hne).right <| ((hf f hfm).eq hl).trans (hl'.eq (hp g hgm))

-- A depot whose source does something else whenever it is asked.
def unsteady : Depot :=
  let source := .series [.write (Bytes.ofText "new"), .spoil (Bytes.ofText "bad"), .nothing,
    .refuse, .write (Bytes.ofText "other")]
  { renewable with attempts := 2, source := some source }

def unsteadyRequests : List Request := [
  .call (.load "m.bin"), .call (.download "m.bin"), .call (.load "m.bin"),
  .call (.download "m.bin"), .call (.load "m.bin"), .call (.load "n.bin"),
  .setAllowed false, .call (.download "n.bin"), .setAllowed true,
  .call (.download "n.bin"), .call (.load "n.bin"), .call (.remove "m.bin"), .call (.load "m.bin")]

-- Buffers that are remembered outlive a download that fails, and no other one.
theorem unsteady_cache_unseen :
    let cached :=
      unsteadyRequests.mapM Request.serve { unsteady with cache := some (.ofBudget 1000) }
    let plain := unsteadyRequests.mapM Request.serve { unsteady with cache := none }
    let stored (f text : String) : Buffers := .ofList [(f, Bytes.ofText text)]
    plain.1 = [
      .ok (some (stored "m.bin" "old")), .ok none, .ok (some (stored "m.bin" "new")),
      .error (.download "m.bin" 2), .ok (some (stored "m.bin" "new")), .error (.part .io),
      .ok none, .error (.downloadsDisabled "n.bin"), .ok none,
      .ok none, .ok (some (stored "n.bin" "other")), .ok none, .error (.part .io)] ∧
    cached.2.entries.map (·.key) = ["n.bin"] ∧
    cached.1 = plain.1 ∧ cached.2.files = plain.2.files := by
  have hn : Apart {f | f ∈ ["m.bin", "n.bin"]} unsteady :=
    apart_of_leads ("local/" ++ ·) ("local/" ++ · ++ ".part")
      (by decide +kernel) (by decide +kernel) (by decide +kernel)
  have hr : ∀ k, .call k ∈ unsteadyRequests → k.file ∈ ["m.bin", "n.bin"] := by
    simp [unsteadyRequests, Call.file]
  refine ⟨?_, ?_, cache_unseen unsteady 1000 _ hn _ hr⟩
  · decide +kernel
  · decide +kernel

end Depot
end Inference
