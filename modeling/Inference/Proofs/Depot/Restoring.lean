import Inference.Proofs.Depot.Caching

/-!
A depot gets an artifact back that was missing or damaged: what is left of it is removed, and it is
fetched again. Whatever was in the file, in its part or in the cache before, the file then has what
the source supplies, and nothing else is served.
-/

namespace Inference

namespace Depot

-- The source writes the bytes by one of a number of tries, and nothing is taken before.
inductive Supplies (s : Source) (f : String) (b : Bytes) : ℕ → Depot → Prop
  | now {n d} : s.deliver d.asked.length f d.files = .write b → Supplies s f b (n + 1) d
  | later {n d} : ¬Delivers s f d → Supplies s f b n (discardPart f (fetch s f d).2) →
      Supplies s f b (n + 1) d

variable {d d' : Depot} {f path : String} {s : Source} {tries n : ℕ} {b : Bytes}

-- The artifact can be fetched once its file is removed.
structure Restorable (f : String) (b : Bytes) (d : Depot) : Prop where
  allowed : d.allowed
  source  : ∃ s, d.source = some s ∧ Supplies s f b d.attempts ((remove f).alone d).2
  bytes   : b ≠ []
  file    : d.files.Admits (d.path f)
  part    : d.files.Admits (d.partPath f)

-- The file is as it was fetched, and so is what is remembered of it.
structure Restored (f path : String) (b : Bytes) (d : Depot) : Prop where
  located : d.path f = path
  file    : d.files.read path = .ok b
  part    : d.files.find (d.partPath f) = .error .notFound
  entries : ∀ e ∈ d.entries, e.key = f → e.buffers = artifact path b

theorem restored_install (hf : d.files.Admits (d.path f))
    (hp : d.files.read (d.partPath f) = .ok b) :
    ((install f).alone d).1 = .ok () ∧ Restored f (d.path f) b ((install f).alone d).2 := by
  have ⟨l, hl, hd⟩ := hf
  have ⟨l', hl', hb⟩ := Files.read_eq_ok.mp hp
  have hne : l' ≠ l := fun h => leads_part_ne hl (h ▸ hl')
  have hn : d.files.node? l' ≠ some .dir := by simp [hb]
  have hd' : (d.files.drop l').node? l ≠ some .dir := by rwa [Files.node?_drop hn, if_neg hne.symm]
  have hr : d.files.rename (d.partPath f) (d.path f) = .ok ((d.files.drop l').put l (.file b)) :=
    Files.rename_eq_ok.mpr ⟨l', hl', l, hl, hd, b, hb, rfl⟩
  have hs := (Files.confined_rename hr).dirs
  have hplace : placePart f d =
      (.ok (), { d with files := (d.files.drop l').put l (.file b) }) := by
    simp only [placePart, onFiles, hr]
  rw [alone_install, hplace]
  refine ⟨rfl, rfl, Files.read_eq_ok.mpr ⟨l, hs.leads.mp hl, ?_⟩,
    Files.find_eq_notFound (hs.leads.mp hl') ?_, fun e he hk => ((mem_forget.mp he).right hk).elim⟩
  · exact (Files.node?_put hd' _ l).trans (if_pos rfl)
  · refine (Files.node?_put hd' _ l').trans ?_
    rw [if_neg hne, Files.node?_drop hn, if_pos rfl]

theorem Supplies.restored (h : Supplies s f b n d) (hb : b ≠ []) (hf : d.files.Admits (d.path f))
    (hp : d.files.Admits (d.partPath f)) : ((tryFetch s f tries n).alone d).1 = .ok () ∧
      Restored f (d.path f) b ((tryFetch s f tries n).alone d).2 := by
  induction h
  case now n d hs =>
    have ⟨fs, hw, hr⟩ := hp.write b
    have hfetch : fetch s f d = (true, { d with files := fs, asked := d.asked ++ [f] }) := by
      simp only [fetch, Files.receive, hs, hw]
    have hd : Delivers s f d := by
      rw [Delivers, hfetch]
      exact ⟨rfl, Files.hasContent_iff.mpr ⟨b, hr, hb⟩⟩
    rw [alone_tryFetch, if_pos hd, hfetch]
    exact restored_install ((Files.confined_write hw).dirs.admits.mp hf) hr
  case later n d hd _ hi =>
    have ht := touches_retry s f d
    rw [alone_tryFetch, if_neg hd]
    simp only [partPath, ht.path] at hi hp
    exact hi (ht.files.dirs.admits.mp hf) (ht.files.dirs.admits.mp hp)

theorem download_allowed (ha : d.allowed) (hs : d.source = some s) :
    (download f).alone d = (tryFetch s f d.attempts d.attempts).alone d := by
  rw [alone_download, ha, hs]

theorem Restorable.restored (h : Restorable f b d) :
    ((download f).alone ((remove f).alone d).2).1 = .ok () ∧
      Restored f (d.path f) b ((download f).alone ((remove f).alone d).2).2 := by
  have ⟨s, hs, hsup⟩ := h.source
  have ht := touches_remove f d
  have ⟨c, fs, he⟩ : ∃ c fs, ((remove f).alone d).2 = { d with cache := c, files := fs } := by
    simp only [alone_remove, deleteFile, onFiles, forget]
    split <;> exact ⟨_, _, rfl⟩
  rw [he] at hsup ht ⊢
  rw [download_allowed (d := { d with cache := c, files := fs }) h.allowed hs]
  exact hsup.restored h.bytes (ht.files.dirs.admits.mp h.file) (ht.files.dirs.admits.mp h.part)

-- The cache has no say in what can be fetched.
theorem Supplies.cached (h : Supplies s f b n d) (c : Option Cache) :
    Supplies s f b n { d with cache := c } := by
  induction h
  case now hs => exact .now hs
  case later n d hd _ hi =>
    have hr : discardPart f (fetch s f { d with cache := c }).2 =
        { discardPart f (fetch s f d).2 with cache := c } := by
      simp only [discardPart, onFiles, fetch, partPath, path]
      split <;> rfl
    exact .later hd (hr ▸ hi)

theorem Restorable.of_uncached_eq (h : Restorable f b d) (he : d'.uncached = d.uncached) :
    Restorable f b d' := by
  have ⟨s, hs, hsup⟩ := h.source
  have hr : ((remove f).alone d').2.uncached = ((remove f).alone d).2.uncached := by
    have h' := congrArg Prod.snd (alone_remove_uncached f d')
    rw [he, alone_remove_uncached] at h'
    exact h'.symm
  have hsup := hsup.cached ((remove f).alone d').2.cache
  rw [← eq_of_uncached_eq hr] at hsup
  rw [eq_of_uncached_eq he] at hsup ⊢
  exact ⟨h.allowed, ⟨s, hs, hsup⟩, h.bytes, h.file, h.part⟩

namespace Restored

theorem reading (h : Restored f path b d) (hb : b ≠ []) : d.reading f = .ok (artifact path b) := by
  rw [Depot.reading, h.located]
  exact readArtifact_eq_ok.mpr ⟨b, h.file, hb, rfl⟩

theorem not_stale (h : Restored f path b d) (hb : b ≠ []) : ¬d.Stale f := by
  rintro ⟨e, hm, hk, hn⟩
  exact hn <| h.entries e hm hk ▸ h.reading hb

theorem load (h : Restored f path b d) (hb : b ≠ []) :
    ((load f).alone d).1 = .ok (artifact path b) ∧ Restored f path b ((load f).alone d).2 := by
  refine ⟨by rw [load_alone_of_not_stale (h.not_stale hb), h.reading hb]; rfl, ?_⟩
  have he := eq_of_uncached_eq (uncached_alone_load f d)
  have hn := not_stale_load f (h.not_stale hb)
  rw [he] at hn ⊢
  refine ⟨h.located, h.file, h.part, fun e hm hk => ?_⟩
  have hr : d.reading f = .ok e.buffers := by_contra fun hr => hn ⟨e, hm, hk, hr⟩
  exact Except.ok.inj (hr.symm.trans (h.reading hb))

end Restored

end Depot
end Inference
