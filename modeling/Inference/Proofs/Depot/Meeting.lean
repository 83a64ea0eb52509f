import Inference.Proofs.Depot.Restoring
import Inference.Proofs.Tally

/-!
Downloads of one artifact that run at the same time. They share the place for parts, so a call may
find no part where it has just fetched one: another call has put it into the place of the artifact,
or has thrown it away. A call may fail for that, yet no call comes back before the artifact is
there.
-/

namespace Inference

namespace Depot

-- Where a download stands, with the number of tries that are left after the present one.
inductive Phase where
  | begin
  | try (n : ℕ)
  | check (n : ℕ)
  | place
  | forget
  | retry (n : ℕ)
  | ended (r : Except RunnerError Unit)

namespace Phase

variable (s : Source) (f : String) (tries : ℕ)

def routine : Phase → Routine Depot (Except RunnerError Unit)
  | begin => download f
  | «try» n => tryFetch s f tries (n + 1)
  | check n => do
    if ← .read (hasPart f) then install f
    else
      .change (discardPart f)
      tryFetch s f tries n
  | place => install f
  | forget => do
    .change (Depot.forget f)
    return .ok ()
  | retry n => do
    .change (discardPart f)
    tryFetch s f tries n
  | ended r => return r

-- With a number of tries left.
def trying : ℕ → Phase
  | 0 => ended (.error (.download f tries))
  | n + 1 => «try» n

-- The next action, if the source writes what it is asked for.
inductive Next (d : Depot) : Phase → Phase → Depot → Prop
  | begin : Next d begin (trying f tries tries) d
  | fetch (n) : Next d («try» n) (check n) (Depot.fetch s f d).2
  | good (n) : hasPart f d → Next d (check n) place d
  | bad (n) : hasPart f d = false → Next d (check n) (retry n) d
  | placed : (placePart f d).1 = .ok () → Next d place forget (placePart f d).2
  | lost : (placePart f d).1 ≠ .ok () → Next d place (ended (.error .io)) (placePart f d).2
  | discard (n) : Next d (retry n) (trying f tries n) (discardPart f d)
  | forget : Next d forget (ended (.ok ())) (Depot.forget f d)

-- Has fetched a part, and is going to use it.
inductive Fetched : Phase → Prop
  | check (n) : Fetched (check n)
  | place : Fetched place

-- On the way, and the part that was fetched is still there.
inductive Early (d : Depot) : Phase → Prop
  | begin : Early d begin
  | try (n) : Early d («try» n)
  | check (n) : hasPart f d → Early d (check n)
  | place : hasPart f d → Early d place

-- Fails only if the part that was fetched is taken away.
inductive Safe (d : Depot) : Phase → Prop
  | check (n) : hasPart f d → Safe d (check n)
  | place : hasPart f d → Safe d place
  | forget : Safe d forget
  | ended : Safe d (ended (.ok ()))

-- Has put the artifact into its place.
inductive Won : Phase → Prop
  | forget : Won forget
  | ended : Won (ended (.ok ()))

-- Ends in one of these ways, if it has ended.
def Fair (p : Phase) : Prop :=
  ∀ r, p = ended r → r = .ok () ∨ r = .error .io ∨ r = .error (.download f tries)

-- The actions that are left at most.
def left : Phase → ℕ
  | begin => 3 * tries + 2
  | «try» n => 3 * n + 4
  | check n => 3 * n + 3
  | place => 2
  | forget => 1
  | retry n => 3 * n + 2
  | ended _ => 0

end Phase

-- A source supplies the artifact, and there is room for it and for its part.
structure Supplied (s : Source) (f : String) (tries : ℕ) (d : Depot) : Prop where
  allowed  : d.allowed
  source   : d.source = some s
  attempts : d.attempts = tries
  file     : d.files.Admits (d.path f)
  part     : d.files.Admits (d.partPath f)

variable {d d' : Depot} {s : Source} {f : String} {b : Bytes} {tries n : ℕ}

theorem routine_trying (s : Source) (f : String) (tries n : ℕ) :
    (Phase.trying f tries n).routine s f tries = tryFetch s f tries n := by
  cases n <;> rfl

section Advance

variable (s : Source) (tries : ℕ)

theorem advance?_check_good (h : hasPart f d) : ((Phase.check n).routine s f tries).advance? d =
    some (Phase.place.routine s f tries, d) := by
  simp [Phase.routine, h]

theorem advance?_check_bad (h : hasPart f d = false) :
    ((Phase.check n).routine s f tries).advance? d =
      some ((Phase.retry n).routine s f tries, d) := by
  simp [Phase.routine, h]

theorem advance?_install_placed (h : (placePart f d).1 = .ok ()) : (install f).advance? d =
    some (Phase.forget.routine s f tries, (placePart f d).2) := by
  simp [install, Phase.routine, h]

theorem advance?_install_lost (h : (placePart f d).1 ≠ .ok ()) : (install f).advance? d =
    some ((Phase.ended (.error .io)).routine s f tries, (placePart f d).2) := by
  cases hp : (placePart f d).1
  case ok      => exact (h hp).elim
  case error e => simp [install, Phase.routine, hp]

end Advance

theorem Supplied.of_touches {l : List String} (hd : Supplied s f tries d) (h : Touches l d d')
    (ha : d'.allowed = d.allowed) (hs : d'.source = d.source) (ht : d'.attempts = d.attempts) :
    Supplied s f tries d' where
  allowed  := ha ▸ hd.allowed
  source   := hs ▸ hd.source
  attempts := ht ▸ hd.attempts
  file     := h.path f ▸ h.files.dirs.admits.mp hd.file
  part     := by
    rw [partPath, h.path]
    exact h.files.dirs.admits.mp hd.part

theorem supplied_onFiles {l : List String} {change : Files → Except FileError Files}
    (hd : Supplied s f tries d) (h : Touches l d (d.onFiles change).2) :
    Supplied s f tries (d.onFiles change).2 := by
  apply hd.of_touches h
  all_goals
    rw [onFiles]
    split <;> rfl

namespace Supplied

theorem fetch_eq (hd : Supplied s f tries d) (hs : ∀ n fs, s.deliver n f fs = .write b) :
    ∃ fs, fetch s f d = (true, { d with files := fs, asked := d.asked ++ [f] }) ∧
      fs.read (d.partPath f) = .ok b := by
  have ⟨fs, hw, hr⟩ := hd.part.write b
  exact ⟨fs, by simp only [fetch, Files.receive, hs, hw], hr⟩

theorem fetch_fst (hd : Supplied s f tries d) (hs : ∀ n fs, s.deliver n f fs = .write b) :
    (fetch s f d).1 = true := by
  have ⟨_, hf, _⟩ := hd.fetch_eq hs
  rw [hf]

theorem advance?_download (hd : Supplied s f tries d) :
    (download f).advance? d = some ((Phase.trying f tries tries).routine s f tries, d) := by
  simp [download, hd.allowed, hd.source, hd.attempts, routine_trying]

theorem advance?_tryFetch (hd : Supplied s f tries d)
    (hs : ∀ n fs, s.deliver n f fs = .write b) (n : ℕ) : (tryFetch s f tries (n + 1)).advance? d =
      some ((Phase.check n).routine s f tries, (fetch s f d).2) := by
  simp [tryFetch, Phase.routine, hd.fetch_fst hs]

theorem next (hd : Supplied s f tries d) (hs : ∀ n fs, s.deliver n f fs = .write b) {p : Phase}
    {r : Routine Depot (Except RunnerError Unit)}
    (h : (p.routine s f tries).advance? d = some (r, d')) :
    ∃ p', r = p'.routine s f tries ∧ p.Next s f tries d p' d' := by
  cases p
  case begin =>
    cases hd.advance?_download.symm.trans h
    exact ⟨_, rfl, .begin⟩
  case «try» n =>
    cases (hd.advance?_tryFetch hs n).symm.trans h
    exact ⟨_, rfl, .fetch n⟩
  case check n =>
    cases hp : hasPart f d
    case true =>
      cases (advance?_check_good s tries hp).symm.trans h
      exact ⟨_, rfl, .good n hp⟩
    case false =>
      cases (advance?_check_bad s tries hp).symm.trans h
      exact ⟨_, rfl, .bad n hp⟩
  case place =>
    by_cases hp : (placePart f d).1 = .ok ()
    case pos =>
      cases (advance?_install_placed s tries hp).symm.trans h
      exact ⟨.forget, rfl, .placed hp⟩
    case neg =>
      cases (advance?_install_lost s tries hp).symm.trans h
      exact ⟨.ended (.error .io), rfl, .lost hp⟩
  case forget =>
    cases h
    exact ⟨.ended (.ok ()), rfl, .forget⟩
  case retry n =>
    cases h
    exact ⟨Phase.trying f tries n, (routine_trying s f tries n).symm, .discard n⟩
  case ended r => cases h

theorem after (hd : Supplied s f tries d) {p p' : Phase} (h : p.Next s f tries d p' d') :
    Supplied s f tries d' := by
  cases h
  case fetch           => exact hd.of_touches (touches_fetch s f d) rfl rfl rfl
  case placed | lost   => exact supplied_onFiles hd (touches_placePart f d)
  case discard         => exact supplied_onFiles hd (touches_discardPart f d)
  case forget          => exact hd.of_touches (touches_forget [] f d) rfl rfl rfl
  all_goals exact hd

end Supplied

-- Whatever is in the place for parts is the artifact.
def Clean (f : String) (b : Bytes) (d : Depot) : Prop :=
  ∀ x, d.files.read (d.partPath f) = .ok x → x = b

def Has (f : String) (b : Bytes) (d : Depot) : Prop := d.files.read (d.path f) = .ok b

theorem hasPart_iff (hb : b ≠ []) (hc : Clean f b d) :
    hasPart f d ↔ d.files.read (d.partPath f) = .ok b := by
  rw [hasPart, Files.hasContent_iff]
  constructor
  case mp  => exact fun ⟨x, hx, _⟩ => hc x hx ▸ hx
  case mpr => exact fun h => ⟨b, h, hb⟩

theorem Touches.has {l : List String} (h : Touches l d d') (hf : Has f b d)
    (hl : ∀ p ∈ l, ∀ l, d.files.Leads (d.path f) l → ¬d.files.Leads p l) : Has f b d' := by
  rw [Has, h.path]
  exact h.files.read (fun l hp ⟨p, hm, hn⟩ => hl p hm l hp hn) hf

theorem clean_fetch (hd : Supplied s f tries d) (hs : ∀ n fs, s.deliver n f fs = .write b) :
    Clean f b (fetch s f d).2 ∧
      (fetch s f d).2.files.read ((fetch s f d).2.partPath f) = .ok b := by
  have ⟨fs, hf, hr⟩ := hd.fetch_eq hs
  rw [hf]
  exact ⟨fun x hx => Except.ok.inj (hx.symm.trans hr), hr⟩

-- A part that is there gets into its place.
theorem placePart_eq (hd : Supplied s f tries d) (hp : d.files.read (d.partPath f) = .ok b) :
    (placePart f d).1 = .ok () ∧ Has f b (placePart f d).2 ∧ Clean f b (placePart f d).2 := by
  have ⟨hok, hr⟩ := restored_install hd.file hp
  rw [alone_install] at hok hr
  cases hp : placePart f d with | mk answer e
  rw [hp] at hok hr
  cases answer
  case error => cases hok
  case ok    =>
    have hpath : e.path f = d.path f := hr.located
    have hread : e.files.read (d.path f) = .ok b := hr.file
    have hnone : e.files.find (e.partPath f) = .error .notFound := hr.part
    refine ⟨rfl, by rwa [Has, hpath], fun x hx => ?_⟩
    rw [Files.read, hnone] at hx
    cases hx

theorem exists_part (h : (placePart f d).1 = .ok ()) :
    ∃ x, d.files.read (d.partPath f) = .ok x := by
  rw [placePart, onFiles] at h
  split at h
  case h_1 hr =>
    obtain ⟨l, hl, _, _, _, x, hx, _⟩ := Files.rename_eq_ok.mp hr
    exact ⟨x, Files.read_eq_ok.mpr ⟨l, hl, hx⟩⟩
  case h_2 => cases h

theorem placePart_lost (h : (placePart f d).1 ≠ .ok ()) : (placePart f d).2 = d := by
  rw [placePart, onFiles] at h ⊢
  split at h
  case h_1 => exact (h rfl).elim
  case h_2 => rfl

theorem clean_discardPart (h : Clean f b d) : Clean f b (discardPart f d) := by
  intro x hx
  rw [discardPart, onFiles] at hx
  split at hx
  case h_1 fs hr =>
    obtain ⟨l, hl, ⟨_, hn⟩, hfs⟩ := Files.remove_eq_ok.mp hr
    obtain ⟨l', hl', hx⟩ := Files.read_eq_ok.mp hx
    have hl' := (Files.confined_remove hr).dirs.leads.mpr hl'
    cases hl.eq hl'
    rw [← hfs, Files.node?_drop (by simp [hn]), if_pos rfl] at hx
    cases hx
  case h_2 => exact h x hx

namespace Phase

variable {p p' : Phase}

theorem Early.imp (h : p.Early f d) (hd : hasPart f d → hasPart f d') : p.Early f d' := by
  cases h
  case begin      => exact .begin
  case «try» n    => exact .try n
  case check n hp => exact .check n (hd hp)
  case place hp   => exact .place (hd hp)

theorem Safe.imp (h : p.Safe f d) (hd : hasPart f d → hasPart f d') : p.Safe f d' := by
  cases h
  case check n hp => exact .check n (hd hp)
  case place hp   => exact .place (hd hp)
  case forget     => exact .forget
  case ended      => exact .ended

theorem trying_early (f : String) (d : Depot) (h : 1 ≤ n) : (trying f tries n).Early f d := by
  cases n
  case zero   => omega
  case succ n => exact .try n

theorem not_fetched_trying (f : String) (tries n : ℕ) : ¬(trying f tries n).Fetched := by
  intro h
  cases n <;> cases h

theorem not_fetched_begin : ¬begin.Fetched := by
  intro h
  cases h

theorem fair_begin : begin.Fair f tries := by
  intro _ h
  cases h

namespace Next

theorem clean (h : p.Next s f tries d p' d') (hd : Supplied s f tries d)
    (hs : ∀ n fs, s.deliver n f fs = .write b) (hc : Clean f b d) : Clean f b d' := by
  cases h
  case fetch   => exact (clean_fetch hd hs).left
  case placed hp =>
    have ⟨x, hx⟩ := exists_part hp
    exact (placePart_eq hd (hc x hx ▸ hx)).right.right
  case lost hp => exact (placePart_lost hp).symm ▸ hc
  case discard => exact clean_discardPart hc
  all_goals exact hc

theorem fetched (h : p.Next s f tries d p' d') (hd : Supplied s f tries d)
    (hs : ∀ n fs, s.deliver n f fs = .write b) (hp : p'.Fetched) : p.Fetched ∨ Clean f b d' := by
  cases h
  case begin     => exact (not_fetched_trying f tries tries hp).elim
  case fetch     => exact .inr (clean_fetch hd hs).left
  case good n _  => exact .inl (.check n)
  case discard n => exact (not_fetched_trying f tries n hp).elim
  all_goals cases hp

-- The artifact stays what it is.
theorem has (h : p.Next s f tries d p' d') (hd : Supplied s f tries d)
    (hc : p.Fetched → Clean f b d) (hf : Has f b d) : Has f b d' := by
  have hn (l : String) (hl : d.files.Leads (d.path f) l) : ¬d.files.Leads (d.partPath f) l :=
    leads_part_ne hl
  cases h
  case fetch   => exact (touches_fetch s f d).has hf (List.forall_mem_singleton.mpr hn)
  case placed hp =>
    have ⟨x, hx⟩ := exists_part hp
    exact (placePart_eq hd (hc .place x hx ▸ hx)).right.left
  case lost hp => exact (placePart_lost hp).symm ▸ hf
  case discard => exact (touches_discardPart f d).has hf (List.forall_mem_singleton.mpr hn)
  all_goals exact hf

theorem won (h : p.Next s f tries d p' d') (hp : p.Won) : p'.Won := by
  cases hp
  case forget =>
    cases h
    exact .ended
  case ended => cases h

theorem fair (h : p.Next s f tries d p' d') : p'.Fair f tries := by
  have ht (n : ℕ) : (trying f tries n).Fair f tries := by
    intro r hr
    cases n <;> cases hr
    exact .inr <| .inr rfl
  cases h
  case begin     => exact ht tries
  case discard n => exact ht n
  all_goals
    intro r hr
    cases hr
  case lost      => exact .inr <| .inl rfl
  case forget    => exact .inl rfl

theorem left_lt (h : p.Next s f tries d p' d') : p'.left tries < p.left tries := by
  have ht (n : ℕ) : (trying f tries n).left tries < 3 * n + 2 := by
    cases n
    case zero   => exact Nat.zero_lt_succ _
    case succ n => simp only [trying, left]; omega
  cases h
  case begin     => exact ht tries
  case discard n => exact ht n
  all_goals simp only [left]; omega

-- As long as nobody has won every part is still there, and the first call that places one wins.
theorem early (h : p.Next s f tries d p' d') (hd : Supplied s f tries d)
    (hs : ∀ n fs, s.deliver n f fs = .write b) (hb : b ≠ []) (ht : 1 ≤ tries) (he : p.Early f d)
    (hc : p.Fetched → Clean f b d) :
    p'.Early f d' ∧ (hasPart f d → hasPart f d') ∨ Has f b d' ∧ p'.Won := by
  cases h
  case begin => exact .inl ⟨trying_early f d ht, id⟩
  case fetch n =>
    have ⟨hc, hr⟩ := clean_fetch hd hs
    have hp := (hasPart_iff hb hc).mpr hr
    exact .inl ⟨.check n hp, fun _ => hp⟩
  case good n hp => exact .inl ⟨.place hp, id⟩
  case bad n hn =>
    cases he with | check _ hp => simp [hn] at hp
  case placed hp =>
    have ⟨x, hx⟩ := exists_part hp
    exact .inr ⟨(placePart_eq hd (hc .place x hx ▸ hx)).right.left, .forget⟩
  case lost hn =>
    cases he with | place hp =>
    exact (hn (placePart_eq hd ((hasPart_iff hb (hc .place)).mp hp)).left).elim
  case discard => cases he
  case forget  => cases he

theorem safe (h : p.Next s f tries d p' d') (hd : Supplied s f tries d) (hb : b ≠ [])
    (hp : p.Safe f d) (hc : p.Fetched → Clean f b d) : p'.Safe f d' := by
  cases hp
  case check n hp =>
    cases h
    case good     => exact .place hp
    case bad hn   => simp [hn] at hp
  case place hp =>
    cases h
    case placed   => exact .forget
    case lost hn  => exact (hn (placePart_eq hd ((hasPart_iff hb (hc .place)).mp hp)).left).elim
  case forget =>
    cases h
    exact .ended
  case ended => cases h

-- Only a fetch asks the source.
theorem fetches (h : p.Next s f tries d p' d') (ha : d'.asked ≠ d.asked) :
    ∃ n, p' = check n ∧ d' = (Depot.fetch s f d).2 := by
  have ho (change : Files → Except FileError Files) : (d.onFiles change).2.asked = d.asked := by
    rw [onFiles]
    split <;> rfl
  cases h
  case fetch n         => exact ⟨n, rfl, rfl⟩
  case placed | lost   => exact (ha (ho _)).elim
  case discard         => exact (ha (ho _)).elim
  all_goals exact (ha rfl).elim

end Next

end Phase

-- What is begun is a download of the artifact.
def Downloads (f : String) (a : Crowd.Action Depot (Except RunnerError Unit)) : Prop :=
  ∀ p, a = .start p → p = download f

theorem downloads_start (f : String) : Downloads f (.start (download f)) :=
  fun _ h => (Crowd.Action.start.inj h).symm

theorem downloads_advance (f : String) (i : ℕ) : Downloads f (.advance i) := fun _ h => nomatch h

-- The downloads of a crowd stand like this.
structure Meets (s : Source) (f : String) (b : Bytes) (tries : ℕ) (ps : List Phase) (d : Depot) :
    Prop where
  supplied : Supplied s f tries d
  clean    : ∀ p ∈ ps, p.Fetched → Clean f b d
  stand    : (∀ p ∈ ps, p.Early f d) ∨ Has f b d ∧ ∃ p ∈ ps, p.Won
  answers  : ∀ p ∈ ps, p.Fair f tries

theorem Meets.nobody (h : Supplied s f tries d) : Meets s f b tries [] d where
  supplied := h
  clean    := List.forall_mem_nil _
  stand    := .inl <| List.forall_mem_nil _
  answers  := List.forall_mem_nil _

theorem Meets.start {ps : List Phase} (h : Meets s f b tries ps d) :
    Meets s f b tries (ps ++ [.begin]) d where
  supplied := h.supplied
  clean    := List.forall_mem_append.mpr ⟨h.clean,
    List.forall_mem_singleton.mpr fun hf => (Phase.not_fetched_begin hf).elim⟩
  stand    := h.stand.imp
    (fun he => List.forall_mem_append.mpr ⟨he, List.forall_mem_singleton.mpr .begin⟩)
    fun ⟨hf, q, hq, hw⟩ => ⟨hf, q, List.mem_append_left _ hq, hw⟩
  answers  := List.forall_mem_append.mpr ⟨h.answers, List.forall_mem_singleton.mpr Phase.fair_begin⟩

theorem Meets.step {ps : List Phase} {i : ℕ} {p p' : Phase} (h : Meets s f b tries ps d)
    (hs : ∀ n fs, s.deliver n f fs = .write b) (hb : b ≠ []) (ht : 1 ≤ tries)
    (hi : ps[i]? = some p) (hn : p.Next s f tries d p' d') :
    Meets s f b tries (ps.set i p') d' where
  supplied := h.supplied.after hn
  clean    := by
    intro q hq hf
    cases List.mem_or_eq_of_mem_set hq
    case inl hq => exact hn.clean h.supplied hs (h.clean q hq hf)
    case inr hq =>
      subst hq
      cases hn.fetched h.supplied hs hf
      case inl hp => exact hn.clean h.supplied hs (h.clean p (List.mem_of_getElem? hi) hp)
      case inr hc => exact hc
  stand    := by
    have hp := List.mem_of_getElem? hi
    have hm : p' ∈ ps.set i p' := List.mem_set (List.getElem?_eq_some_iff.mp hi).choose p'
    cases h.stand
    case inl he =>
      cases hn.early h.supplied hs hb ht (he p hp) (h.clean p hp)
      case inl hp' => exact .inl <| forall_mem_set i (fun q hq => (he q hq).imp hp'.right) hp'.left
      case inr hw  => exact .inr ⟨hw.left, p', hm, hw.right⟩
    case inr hw =>
      have ⟨hf, q, hq, hw⟩ := hw
      refine .inr ⟨hn.has h.supplied (h.clean p hp) hf, ?_⟩
      by_cases hqp : q = p
      case pos => exact ⟨p', hm, hn.won (hqp ▸ hw)⟩
      case neg => exact ⟨q, mem_set_of_ne hq hi hqp, hw⟩
  answers  := forall_mem_set i h.answers hn.fair

section Crowd

variable {c c' : Crowd Depot (Except RunnerError Unit)} {ps : List Phase} {i : ℕ}
  {a : Crowd.Action Depot (Except RunnerError Unit)}

theorem cases_act (hr : c.routines = ps.map (Phase.routine s f tries))
    (hd : Supplied s f tries c.state) (hs : ∀ n fs, s.deliver n f fs = .write b)
    (ha : Downloads f a) (h : c.act a = some c') :
    (∃ p, a = .start p) ∧ c'.routines = (ps ++ [Phase.begin]).map (Phase.routine s f tries) ∧
        c'.state = c.state ∨
      ∃ i p p', a = .advance i ∧ ps[i]? = some p ∧ p.Next s f tries c.state p' c'.state ∧
        c'.routines = (ps.set i p').map (Phase.routine s f tries) := by
  cases Crowd.step_of_act h
  case start p =>
    refine .inl ⟨⟨p, rfl⟩, ?_, rfl⟩
    rw [ha p rfl, hr, List.map_append]
    rfl
  case advance i act next hi =>
    rw [hr, List.getElem?_map, Option.map_eq_some_iff] at hi
    have ⟨p, hi, hp⟩ := hi
    have hn : (p.routine s f tries).advance? c.state = some (next c.state, act c.state) := by
      rw [hp]
      rfl
    have ⟨p', hp', hn⟩ := hd.next hs hn
    refine .inr ⟨i, p, p', rfl, hi, hn, ?_⟩
    rw [hr, hp', List.map_set]

-- The actions of a call, as far as they are not behind it.
def budget (tries : ℕ) (ps : List Phase) (i : ℕ) : ℕ :=
  (ps[i]?.map (Phase.left tries)).getD (3 * tries + 2)

def advances (i : ℕ) : Crowd.Action Depot (Except RunnerError Unit) → Bool
  | .start _ => false
  | .advance j => j = i

theorem budget_start (tries : ℕ) (ps : List Phase) (i : ℕ) :
    budget tries (ps ++ [.begin]) i ≤ budget tries ps i := by
  rw [budget, budget]
  cases Nat.lt_or_ge i ps.length
  case inl hi => rw [List.getElem?_append_left hi]
  case inr hi =>
    rw [List.getElem?_eq_none_iff.mpr hi, List.getElem?_append_right hi]
    cases i - ps.length <;> simp [Phase.left]

theorem budget_step {p p' : Phase} {j : ℕ} (hj : ps[j]? = some p)
    (h : p'.left tries < p.left tries) :
    budget tries (ps.set j p') i + (if j = i then 1 else 0) ≤ budget tries ps i := by
  by_cases hij : j = i
  case pos =>
    subst hij
    have hl := (List.getElem?_eq_some_iff.mp hj).choose
    rw [budget, budget, List.getElem?_set_self hl, hj, if_pos rfl]
    exact h
  case neg => simp [budget, List.getElem?_set_ne hij, hij]

theorem meets_run {as : List (Crowd.Action Depot (Except RunnerError Unit))}
    (hr : c.routines = ps.map (Phase.routine s f tries)) (hm : Meets s f b tries ps c.state)
    (hs : ∀ n fs, s.deliver n f fs = .write b) (hb : b ≠ []) (ht : 1 ≤ tries)
    (ha : ∀ a ∈ as, Downloads f a) (h : Crowd.machine.run c as = some c') :
    ∃ ps', c'.routines = ps'.map (Phase.routine s f tries) ∧ Meets s f b tries ps' c'.state ∧
      ∀ i, budget tries ps' i + as.countP (advances i) ≤ budget tries ps i := by
  induction as generalizing c ps
  case nil =>
    simp only [Machine.run, Option.some.injEq] at h
    subst h
    exact ⟨ps, hr, hm, fun i => Nat.le_refl _⟩
  case cons a as hi =>
    simp only [Machine.run, Option.bind_eq_bind, Option.bind_eq_some_iff] at h
    obtain ⟨c₁, h₁, h⟩ := h
    obtain ⟨ha, has⟩ := List.forall_mem_cons.mp ha
    cases cases_act hr hm.supplied hs ha h₁
    case inl hst =>
      obtain ⟨⟨p, hp⟩, hr₁, hd⟩ := hst
      obtain ⟨ps', hr', hm', hn⟩ := hi hr₁ (hd ▸ hm.start) has h
      refine ⟨ps', hr', hm', fun i => ?_⟩
      rw [hp, List.countP_cons]
      exact Nat.le_trans (hn i) (budget_start tries ps i)
    case inr hst =>
      obtain ⟨j, p, p', hp, hj, hnext, hr₁⟩ := hst
      obtain ⟨ps', hr', hm', hn⟩ := hi hr₁ (hm.step hs hb ht hj hnext) has h
      refine ⟨ps', hr', hm', fun i => ?_⟩
      have := hn i
      have := budget_step (i := i) hj hnext.left_lt
      rw [hp, List.countP_cons]
      simp only [advances, decide_eq_true_eq]
      omega

theorem eq_ended {p : Phase} {r : Except RunnerError Unit}
    (h : (p.routine s f tries).result? = some r) : p = .ended r := by
  cases p
  case ended => exact congrArg Phase.ended (Option.some.inj h)
  all_goals cases h

-- Another action than that of a call takes the part away.
def Robs (f : String) (i : ℕ) (c : Crowd Depot (Except RunnerError Unit))
    (a : Crowd.Action Depot (Except RunnerError Unit)) : Prop :=
  a ≠ .advance i ∧ hasPart f c.state ∧ ∃ c', c.act a = some c' ∧ hasPart f c'.state = false

-- Where the downloads of an artifact have come to by a series of actions.
structure Met (f : String) (b : Bytes) (tries : ℕ)
    (as : List (Crowd.Action Depot (Except RunnerError Unit)))
    (c : Crowd Depot (Except RunnerError Unit)) : Prop where
  bounded : ∀ i, as.countP (advances i) ≤ 3 * tries + 2
  goes    : ∀ i p, c.routines[i]? = some p → p.result? = none → ∃ c', c.act (.advance i) = some c'
  answers : ∀ p ∈ c.routines, ∀ r, p.result? = some r →
    r = .ok () ∨ r = .error .io ∨ r = .error (.download f tries)
  placed  : (∃ p ∈ c.routines, p.result?.isSome) → Has f b c.state
  first   : c.isQuiet → c.routines ≠ [] → ∃ p ∈ c.routines, p.result? = some (.ok ())
  -- A call that is not robbed of what it has just fetched.
  unrobbed : ∀ i c₁ c₂ r, c.act (.advance i) = some c₁ → c₁.state.asked ≠ c.state.asked →
    Crowd.machine.ReachesBy (fun c a => Downloads f a ∧ ¬Robs f i c a) c₁ c₂ →
    (c₂.routines[i]? >>= (·.result?)) = some r → r = .ok ()

theorem Meets.placed (hm : Meets s f b tries ps d) {r : Except RunnerError Unit}
    (h : Phase.ended r ∈ ps) : Has f b d := by
  cases hm.stand
  case inl he => cases he _ h
  case inr hw => exact hw.left

theorem Meets.first (hm : Meets s f b tries ps d) (hp : ∀ p ∈ ps, ∃ r, p = .ended r)
    (hn : ps ≠ []) : Phase.ended (.ok ()) ∈ ps := by
  cases hm.stand
  case inl he =>
    have ⟨p, hps⟩ := List.exists_mem_of_ne_nil ps hn
    have ⟨r, hr⟩ := hp p hps
    cases hr ▸ he p hps
  case inr hw =>
    have ⟨_, q, hq, hw⟩ := hw
    have ⟨r, hr⟩ := hp q hq
    cases hw
    case forget => cases hr
    case ended  => exact hq

theorem Meets.unrobbed {c₁ c₂ : Crowd Depot (Except RunnerError Unit)}
    (hm : Meets s f b tries ps c.state) (hr : c.routines = ps.map (Phase.routine s f tries))
    (hs : ∀ n fs, s.deliver n f fs = .write b) (hb : b ≠ []) (ht : 1 ≤ tries)
    (h : c.act (.advance i) = some c₁) (ha : c₁.state.asked ≠ c.state.asked)
    (hc : Crowd.machine.ReachesBy (fun c a => Downloads f a ∧ ¬Robs f i c a) c₁ c₂) :
    ∃ p : Phase, c₂.routines[i]? = some (p.routine s f tries) ∧ p.Safe f c₂.state := by
  have hget {ps : List Phase} {c : Crowd Depot (Except RunnerError Unit)} {p : Phase}
      (hr : c.routines = ps.map (Phase.routine s f tries)) (hi : ps[i]? = some p) :
      c.routines[i]? = some (p.routine s f tries) := by
    rw [hr, List.getElem?_map, hi, Option.map_some]
  have ⟨ps₂, p₂, hr₂, _, hi₂, hp₂⟩ := hc.preserves
    (I := fun c => ∃ ps p, c.routines = ps.map (Phase.routine s f tries) ∧
      Meets s f b tries ps c.state ∧ ps[i]? = some p ∧ p.Safe f c.state) ?first ?step
  exact ⟨p₂, hget hr₂ hi₂, hp₂⟩
  case first =>
    cases cases_act hr hm.supplied hs (downloads_advance f i) h
    case inl hst =>
      have ⟨⟨_, hp⟩, _⟩ := hst
      cases hp
    case inr hst =>
      have ⟨j, p, p', hj, hi, hn, hr'⟩ := hst
      cases hj
      have ⟨n, hp', hd'⟩ := hn.fetches ha
      subst hp'
      have ⟨hc, hx⟩ := clean_fetch hm.supplied hs
      have hp := (hasPart_iff hb hc).mpr hx
      refine ⟨_, _, hr', hm.step hs hb ht hi hn, List.getElem?_set_self ?_, .check n (hd' ▸ hp)⟩
      exact (List.getElem?_eq_some_iff.mp hi).choose
  case step =>
    intro c c' a ⟨ps, p, hr, hm, hi, hp⟩ ⟨ha, hn⟩ h
    have hkeep (hi : a ≠ .advance i) (hd : hasPart f c.state) : hasPart f c'.state := by
      by_contra hd'
      exact hn ⟨hi, hd, c', h, by simpa using hd'⟩
    cases cases_act hr hm.supplied hs ha h
    case inl hst =>
      have ⟨⟨q, hq⟩, hr', hd⟩ := hst
      refine ⟨_, p, hr', hd ▸ hm.start, ?_, hd ▸ hp⟩
      rwa [List.getElem?_append_left (List.getElem?_eq_some_iff.mp hi).choose]
    case inr hst =>
      have ⟨j, q, q', hj, hq, hnext, hr'⟩ := hst
      by_cases hij : j = i
      case pos =>
        subst hij
        cases hi.symm.trans hq
        refine ⟨_, q', hr', hm.step hs hb ht hq hnext, List.getElem?_set_self ?_, ?_⟩
        · exact (List.getElem?_eq_some_iff.mp hq).choose
        · exact hnext.safe hm.supplied hb hp (hm.clean _ (List.mem_of_getElem? hq))
      case neg =>
        refine ⟨_, p, hr', hm.step hs hb ht hq hnext, ?_, hp.imp (hkeep ?_)⟩
        · rwa [List.getElem?_set_ne hij]
        · intro ha
          cases hj.symm.trans ha
          exact hij rfl

end Crowd

-- Calls that download an artifact at the same time come to an end, whatever the order of their
-- actions. A call fails only if another one has taken away what it had fetched; and whenever a call
-- has come back, with success or without, the artifact is there, and one call has put it there.
theorem downloads_meet {as : List (Crowd.Action Depot (Except RunnerError Unit))}
    {c : Crowd Depot (Except RunnerError Unit)} (hd : Supplied s f tries d)
    (hs : ∀ n fs, s.deliver n f fs = .write b) (hb : b ≠ []) (ht : 1 ≤ tries)
    (ha : ∀ a ∈ as, Downloads f a) (h : Crowd.machine.run ⟨d, []⟩ as = some c) :
    Met f b tries as c := by
  have ⟨ps, hr, hm, hn⟩ := meets_run (by rfl) (.nobody hd) hs hb ht ha h
  have hended {p : Routine Depot (Except RunnerError Unit)} (hp : p ∈ c.routines)
      {r : Except RunnerError Unit} (h : p.result? = some r) : Phase.ended r ∈ ps := by
    have ⟨q, hq, he⟩ := List.mem_map.mp (hr ▸ hp)
    exact eq_ended (he ▸ h) ▸ hq
  constructor
  case bounded  => exact fun i => Nat.le_trans (Nat.le_add_left ..) (hn i)
  case goes     => exact fun i p => Crowd.exists_advance
  case answers  => exact fun p hp r h => hm.answers _ (hended hp h) r rfl
  case placed   =>
    intro ⟨p, hp, h⟩
    have ⟨r, h⟩ := Option.isSome_iff_exists.mp h
    exact hm.placed (hended hp h)
  case first =>
    intro hq hne
    have hall : ∀ p ∈ ps, ∃ r, p = .ended r := by
      intro p hp
      have h := List.all_eq_true.mp hq _ (hr ▸ List.mem_map_of_mem hp)
      have ⟨r, h⟩ := Option.isSome_iff_exists.mp h
      exact ⟨r, eq_ended h⟩
    have hps : ps ≠ [] := by
      intro hps
      exact hne (hr.trans (hps ▸ rfl))
    exact ⟨_, hr ▸ List.mem_map_of_mem (hm.first hall hps), rfl⟩
  case unrobbed =>
    intro i c₁ c₂ r h ha hc hres
    have ⟨p, hi, hp⟩ := hm.unrobbed hr hs hb ht h ha hc
    rw [hi] at hres
    cases eq_ended hres
    cases hp
    rfl

-- A depot that has an artifact, and a source that supplies a newer one whenever it is asked.
def renewing (attempts : ℕ) : Depot :=
  { renewable with
    attempts
    source := some ⟨fun _ _ _ => .write (Bytes.ofText "new")⟩ }

theorem supplied_renewing (attempts : ℕ) :
    Supplied ⟨fun _ _ _ => .write (Bytes.ofText "new")⟩ "m.bin" attempts (renewing attempts) where
  allowed  := rfl
  source   := rfl
  attempts := rfl
  file     :=
    have h : renewable.files.Leads (renewable.path "m.bin") "local/m.bin" ∧
        renewable.files.node? "local/m.bin" ≠ some .dir := by decide +kernel
    ⟨_, h⟩
  part     :=
    have h : renewable.files.Leads (renewable.partPath "m.bin") "local/m.bin.part" ∧
        renewable.files.node? "local/m.bin.part" ≠ some .dir := by decide +kernel
    ⟨_, h⟩

-- Two downloads begin, and each goes on as often as is told.
def together (steps : List ℕ) : List (Crowd.Action Depot (Except RunnerError Unit)) :=
  .start (download "m.bin") :: .start (download "m.bin") :: steps.map .advance

theorem downloads_together (steps : List ℕ) : ∀ a ∈ together steps, Downloads "m.bin" a := by
  simp [together, downloads_start, downloads_advance]

-- Both have fetched a part; the first one puts it into its place, and the second one fetches again.
theorem second_download_tries_again :
    let as := together [0, 0, 1, 1, 0, 0, 0, 1, 1, 1, 1, 1, 1]
    ∃ c, Crowd.machine.run ⟨renewing 2, []⟩ as = some c ∧
      c.routines.map (·.result?) = [some (.ok ()), some (.ok ())] ∧
      c.state.asked = ["m.bin", "m.bin", "m.bin"] ∧ Met "m.bin" (Bytes.ofText "new") 2 as c := by
  intro as
  have h : (Crowd.machine.run ⟨renewing 2, []⟩ as).any fun c =>
      c.routines.map (·.result?) = [some (.ok ()), some (.ok ())] ∧
        c.state.asked = ["m.bin", "m.bin", "m.bin"] := by decide +kernel
  have ⟨c, hc, hp⟩ := Option.any_eq_true _ _ |>.mp h
  have ⟨hres, hasked⟩ := of_decide_eq_true hp
  exact ⟨c, hc, hres, hasked, downloads_meet (supplied_renewing 2) (fun _ _ => rfl)
    (by decide +kernel) (by decide) (downloads_together _) hc⟩

-- With one try, the second call finds that its part has been put into its place already. However
-- many tries it has, it may find so when it has tested the part. And neither call gets the artifact
-- into the place of a directory.
theorem downloads_fail_each_other :
    let answers (d : Depot) (steps : List ℕ) :=
      (Crowd.machine.run ⟨d, []⟩ (together steps)).map fun c => c.routines.map (·.result?)
    let blocked : Files := ⟨.ofList [("local", .dir), ("local/m.bin", .dir)]⟩
    answers (renewing 1) [0, 0, 1, 1, 0, 0, 0, 1, 1] =
      some [some (.ok ()), some (.error (.download "m.bin" 1))] ∧
    answers (renewing 3) [0, 0, 0, 1, 1, 1, 0, 0, 1] = some [some (.ok ()), some (.error .io)] ∧
    answers { renewing 1 with files := blocked } [0, 0, 0, 0, 1, 1, 1, 1] =
      some [some (.error .io), some (.error .io)] := by
  decide +kernel

end Depot
end Inference
