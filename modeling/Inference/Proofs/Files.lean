import Inference.Files.Basic
import Mathlib.Tactic.Common

/-!
What the operations on files do to the nodes. Files come and go, but no operation on files touches a
directory, so a path leads to the same location before and after.
-/

namespace Inference

namespace FilePath

theorem split_of_not_mem {cs : List Char} (h : '/' ∉ cs) : split cs = [cs] := by
  induction cs
  case nil => rfl
  case cons c cs hi =>
    have ⟨hc, hcs⟩ := not_or.mp (List.mem_cons.not.mp h)
    rw [split, if_neg (Ne.symm hc), hi hcs]

-- What is added at the end without a slash is added to the last part.
theorem split_append (cs : List Char) {suffix : List Char} (h : '/' ∉ suffix) :
    ∃ ps p, split cs = ps ++ [p] ∧ split (cs ++ suffix) = ps ++ [p ++ suffix] := by
  induction cs
  case nil => exact ⟨[], [], rfl, split_of_not_mem h⟩
  case cons c cs hi =>
    have ⟨ps, p, hp, hs⟩ := hi
    rw [List.cons_append, split, split, hp, hs]
    split
    case isTrue => exact ⟨[] :: ps, p, rfl, rfl⟩
    case isFalse =>
      cases ps
      case nil       => exact ⟨[], c :: p, rfl, rfl⟩
      case cons q ps => exact ⟨(c :: q) :: ps, p, rfl, rfl⟩

theorem parts_append (path : String) {suffix : String} (h : '/' ∉ suffix.toList) :
    ∃ ps p, parts path = ps ++ [p] ∧ parts (path ++ suffix) = ps ++ [p ++ suffix] := by
  have ⟨ps, p, hp, hs⟩ := split_append path.toList h
  refine ⟨ps.map .ofList, .ofList p, by simp [parts, hp], ?_⟩
  simp [parts, String.toList_append, hs, String.ofList_append]

theorem join_append (dir path : String) {suffix : String} (h : '/' ∉ suffix.toList) :
    join dir (path ++ suffix) = join dir path ++ suffix := by
  have ha : isAbsolute (path ++ suffix) = isAbsolute path := by
    rw [isAbsolute, isAbsolute, String.toList_append, List.head?_append]
    cases hp : path.toList
    case cons => rfl
    case nil =>
      have hs : suffix.toList.head? ≠ some '/' := fun hs => h (List.mem_of_head? hs)
      simp [hs]
  simp only [join, ha]
  split
  case isTrue => rfl
  case isFalse => split <;> simp only [String.append_assoc]

end FilePath

namespace Files

variable {fs fs' : Files} {path target l l' : String} {b : Bytes} {n : Node} {p : Place}

theorem node?_put (h : fs.node? l ≠ some .dir) (n : Node) (l' : String) :
    (fs.put l n).node? l' = if l' = l then some n else fs.node? l' := by
  have hl : l ≠ top := fun hl => h (if_pos hl)
  by_cases ht : l' = top
  case pos => simp [node?, ht, Ne.symm hl]
  case neg => simp [node?, put, ht, Dict.get?_insert]

theorem node?_drop (h : fs.node? l ≠ some .dir) (l' : String) :
    (fs.drop l).node? l' = if l' = l then none else fs.node? l' := by
  have hl : l ≠ top := fun hl => h (if_pos hl)
  by_cases ht : l' = top
  case pos => simp [node?, ht, Ne.symm hl]
  case neg => simp [node?, drop, ht, Dict.get?_erase]

def SameDirs (fs fs' : Files) : Prop := ∀ l, fs.node? l = some .dir ↔ fs'.node? l = some .dir

theorem SameDirs.refl (fs : Files) : fs.SameDirs fs := fun _ => .rfl

theorem SameDirs.trans {fs'' : Files} (h : fs.SameDirs fs') (h' : fs'.SameDirs fs'') :
    fs.SameDirs fs'' := fun l => (h l).trans (h' l)

theorem sameDirs_put (h : fs.node? l ≠ some .dir) (b : Bytes) :
    fs.SameDirs (fs.put l (.file b)) := by
  intro l'
  rw [node?_put h]
  split
  case isTrue hl => simp [hl, h]
  case isFalse   => rfl

theorem sameDirs_drop (h : fs.node? l ≠ some .dir) : fs.SameDirs (fs.drop l) := by
  intro l'
  rw [node?_drop h]
  split
  case isTrue hl => simp [hl, h]
  case isFalse   => rfl

theorem SameDirs.walk (h : fs.SameDirs fs') (l : String) (ps : List String) :
    fs.walk l ps = .ok p → fs'.walk l ps = .ok p := by
  induction ps generalizing l
  case nil => exact id
  case cons q ps hi =>
    rw [Files.walk, Files.walk]
    split
    · exact hi l
    split
    · exact hi _
    split
    · exact id
    split
    · exact id
    intro hw
    split at hw
    case h_1 hd => exact ((h _).mp hd) ▸ hi _ hw
    all_goals cases hw

theorem SameDirs.symm (h : fs.SameDirs fs') : fs'.SameDirs fs := fun l => (h l).symm

theorem SameDirs.locate (h : fs.SameDirs fs') (hp : fs.locate path = .ok p) :
    fs'.locate path = .ok p := by
  rw [Files.locate] at hp ⊢
  split at hp
  · cases hp
  split at hp
  · cases hp
  split at hp
  · cases hp
  simp only [*, if_false]
  exact h.walk _ _ hp

-- The path is one of a file that is, or may be put, at the location.
def Leads (fs : Files) (path l : String) : Prop := fs.locate path = .ok ⟨l, false⟩

instance : Decidable (fs.Leads path l) := inferInstanceAs (Decidable (_ = _))

theorem Leads.eq (h : fs.Leads path l) (h' : fs.Leads path l') : l = l' := by
  cases h.symm.trans h'
  rfl

theorem SameDirs.leads (h : fs.SameDirs fs') : fs.Leads path l ↔ fs'.Leads path l :=
  ⟨h.locate, h.symm.locate⟩

theorem bind_eq_ok {ε α β : Type} {x : Except ε α} {f : α → Except ε β} {y : β} :
    x >>= f = .ok y ↔ ∃ a, x = .ok a ∧ f a = .ok y := by
  cases x
  case error => exact ⟨nofun, fun ⟨_, h, _⟩ => nomatch h⟩
  case ok a  => exact ⟨fun h => ⟨a, rfl, h⟩, fun ⟨_, h, hf⟩ => by cases h; exact hf⟩

theorem exists_place {P : String → Prop} :
    (∃ p, fs.locate path = .ok p ∧ p.asDir = false ∧ P p.location) ↔
      ∃ l, fs.Leads path l ∧ P l := by
  constructor
  case mp  => exact fun ⟨p, hp, ha, h⟩ => ⟨p.location, by rw [Leads, hp, ← ha], h⟩
  case mpr => exact fun ⟨l, hl, h⟩ => ⟨_, hl, rfl, h⟩

theorem nodeAt_eq_file :
    fs.nodeAt p = .ok (.file b) ↔ p.asDir = false ∧ fs.node? p.location = some (.file b) := by
  rw [nodeAt]
  split
  case h_1 hn => simp [hn]
  case h_2 hn => by_cases ha : p.asDir <;> simp [hn, ha]
  case h_3 hn => simp [hn]

theorem checkFree_eq_ok {u : Unit} :
    fs.checkFree p = .ok u ↔ p.asDir = false ∧ fs.node? p.location ≠ some .dir := by
  rw [checkFree]
  split
  case h_1 hn => simp [hn]
  case h_2 hn => by_cases ha : p.asDir <;> simp [hn, ha]
  case h_3 hn => by_cases ha : p.asDir <;> simp [hn, ha]

-- What only goes on with a file.
theorem exists_node {P : Node → Prop} (h : ¬P .dir) : (∃ n, fs.nodeAt p = .ok n ∧ P n) ↔
    p.asDir = false ∧ ∃ b, fs.node? p.location = some (.file b) ∧ P (.file b) := by
  constructor
  case mp =>
    rintro ⟨n, hn, hp⟩
    cases n
    case dir    => exact (h hp).elim
    case file b => exact ⟨(nodeAt_eq_file.mp hn).left, b, (nodeAt_eq_file.mp hn).right, hp⟩
  case mpr => exact fun ⟨ha, b, hb, hp⟩ => ⟨_, nodeAt_eq_file.mpr ⟨ha, hb⟩, hp⟩

theorem nodeAt_eq_dir : fs.nodeAt p = .ok .dir ↔ fs.node? p.location = some .dir := by
  rw [nodeAt]
  split
  case h_1 hn => simp [hn]
  case h_2 hn => by_cases ha : p.asDir <;> simp [hn, ha]
  case h_3 hn => simp [hn]

theorem find_eq_ok {n : Node} :
    fs.find path = .ok n ↔ ∃ p, fs.locate path = .ok p ∧ fs.nodeAt p = .ok n :=
  bind_eq_ok

theorem read_eq_ok : fs.read path = .ok b ↔
    ∃ l, fs.Leads path l ∧ fs.node? l = some (.file b) := by
  simp only [read, bind_eq_ok, find_eq_ok, ← exists_place]
  constructor
  case mp =>
    rintro ⟨n, ⟨p, hp, hn⟩, h⟩
    cases n
    case dir => cases h
    case file =>
      cases h
      have ⟨ha, hb⟩ := nodeAt_eq_file.mp hn
      exact ⟨p, hp, ha, hb⟩
  case mpr => exact fun ⟨p, hp, ha, hb⟩ => ⟨_, ⟨p, hp, nodeAt_eq_file.mpr ⟨ha, hb⟩⟩, rfl⟩

theorem hasContent_iff : fs.hasContent path ↔ ∃ b, fs.read path = .ok b ∧ b ≠ [] := by
  rw [hasContent, read]
  cases fs.find path
  case error => simp [bind, Except.bind]
  case ok n  => cases n <;> simp [bind, Except.bind, pure, Except.pure]

theorem write_eq_ok : fs.write path b = .ok fs' ↔
    ∃ l, fs.Leads path l ∧ fs.node? l ≠ some .dir ∧ fs.put l (.file b) = fs' := by
  simp only [write, bind_eq_ok, checkFree_eq_ok, ← exists_place]
  refine exists_congr fun p => and_congr_right fun _ => ?_
  simp [pure, Except.pure, and_assoc]

theorem remove_eq_ok : fs.remove path = .ok fs' ↔
    ∃ l, fs.Leads path l ∧ (∃ b, fs.node? l = some (.file b)) ∧ fs.drop l = fs' := by
  simp only [remove, bind_eq_ok, ← exists_place]
  refine exists_congr fun p => and_congr_right fun _ => (exists_node nofun).trans ?_
  simp [pure, Except.pure]

theorem rename_eq_ok : fs.rename path target = .ok fs' ↔
    ∃ l, fs.Leads path l ∧ ∃ l', fs.Leads target l' ∧ fs.node? l' ≠ some .dir ∧
      ∃ b, fs.node? l = some (.file b) ∧ (fs.drop l).put l' (.file b) = fs' := by
  simp only [rename, bind_eq_ok, ← exists_place]
  constructor
  case mp =>
    rintro ⟨p, hp, q, hq, n, hn, h⟩
    cases n
    case dir => cases h
    case file b =>
      have ⟨hp', hb⟩ := nodeAt_eq_file.mp hn
      have ⟨_, hf, h⟩ := bind_eq_ok.mp h
      have ⟨hq', hd⟩ := checkFree_eq_ok.mp hf
      exact ⟨p, hp, hp', q, hq, hq', hd, b, hb, Except.ok.inj h⟩
  case mpr =>
    rintro ⟨p, hp, hp', q, hq, hq', hd, b, hb, h⟩
    refine ⟨p, hp, q, hq, .file b, nodeAt_eq_file.mpr ⟨hp', hb⟩, bind_eq_ok.mpr ?_⟩
    exact ⟨(), checkFree_eq_ok.mpr ⟨hq', hd⟩, congrArg Except.ok h⟩

-- The directory that a part of a path leads to.
def enter? (fs : Files) (d name : String) : Option String :=
  if FilePath.isIdle name then some d
  else if name = ".." then some (outside d)
  else if fs.node? (inside d name) = some .dir then some (inside d name)
  else none

theorem walk_last {d name : String} (h : fs.walk d [name] = .ok ⟨l, false⟩) :
    l = inside d name := by
  rw [walk] at h
  split at h
  · cases h
  split at h
  · cases h
  split at h
  · cases h
  cases h
  rfl

-- Only the last part of a path may name a file.
theorem walk_cons {d name : String} {ps : List String} (hp : ps ≠ [])
    (h : fs.walk d (name :: ps) = .ok ⟨l, false⟩) :
    ∃ d', fs.enter? d name = some d' ∧ fs.walk d' ps = .ok ⟨l, false⟩ := by
  rw [walk] at h
  rw [enter?]
  split at h
  case isTrue hi => exact ⟨d, if_pos hi, h⟩
  case isFalse hi =>
  rw [if_neg hi]
  split at h
  case isTrue hu => exact ⟨outside d, if_pos hu, h⟩
  case isFalse hu =>
  rw [if_neg hu]
  split at h
  · cases h
  split at h
  · cases ps <;> simp at hp h
  split at h
  case h_1 hd => exact ⟨inside d name, if_pos hd, h⟩
  all_goals cases h

-- What is added to a path of a file is added to the name of the file.
theorem walk_append {ps : List String} {d name suffix : String}
    (h : fs.walk d (ps ++ [name]) = .ok ⟨l, false⟩)
    (h' : fs.walk d (ps ++ [name ++ suffix]) = .ok ⟨l', false⟩) :
    ∃ d, l = inside d name ∧ l' = inside d (name ++ suffix) := by
  induction ps generalizing d
  case nil => exact ⟨d, walk_last h, walk_last h'⟩
  case cons p ps hi =>
    have ⟨e, he, h⟩ := walk_cons (by simp) h
    have ⟨e', he', h'⟩ := walk_cons (by simp) h'
    obtain rfl : e = e' := Option.some.inj (he.symm.trans he')
    exact hi h h'

theorem Leads.walk (h : fs.Leads path l) : fs.walk top (FilePath.parts path) = .ok ⟨l, false⟩ := by
  rw [Leads, locate] at h
  split at h
  · cases h
  split at h
  · cases h
  split at h
  · cases h
  exact h

-- No directory is touched, and no node but those at certain locations.
structure Confined (P : String → Prop) (fs fs' : Files) : Prop where
  dirs  : fs.SameDirs fs'
  nodes : ∀ l, ¬P l → fs'.node? l = fs.node? l

namespace Confined

variable {P Q : String → Prop}

theorem refl (P : String → Prop) (fs : Files) : Confined P fs fs := ⟨.refl fs, fun _ _ => rfl⟩

theorem trans {fs'' : Files} (h : Confined P fs fs') (h' : Confined P fs' fs'') :
    Confined P fs fs'' :=
  ⟨h.dirs.trans h'.dirs, fun l hl => (h'.nodes l hl).trans (h.nodes l hl)⟩

theorem imp (h : Confined P fs fs') (hPQ : ∀ l, P l → Q l) : Confined Q fs fs' :=
  ⟨h.dirs, fun l hl => h.nodes l (mt (hPQ l) hl)⟩

theorem symm (h : Confined P fs fs') : Confined P fs' fs :=
  ⟨h.dirs.symm, fun l hl => (h.nodes l hl).symm⟩

theorem find (h : Confined P fs fs') (hP : ∀ l, fs.Leads path l → ¬P l)
    (hf : fs.find path = .ok n) : fs'.find path = .ok n := by
  have ⟨p, hp, hn⟩ := find_eq_ok.mp hf
  refine find_eq_ok.mpr ⟨p, h.dirs.locate hp, ?_⟩
  cases n
  case dir    => exact nodeAt_eq_dir.mpr <| (h.dirs _).mp <| nodeAt_eq_dir.mp hn
  case file b =>
    have ⟨ha, hb⟩ := nodeAt_eq_file.mp hn
    have hl : fs.Leads path p.location := by rw [Leads, hp, ← ha]
    exact nodeAt_eq_file.mpr ⟨ha, (h.nodes _ (hP _ hl)).trans hb⟩

theorem find_iff (h : Confined P fs fs') (hP : ∀ l, fs.Leads path l → ¬P l) :
    fs'.find path = .ok n ↔ fs.find path = .ok n :=
  ⟨h.symm.find fun l hl => hP l (h.dirs.leads.mpr hl), h.find hP⟩

theorem read (h : Confined P fs fs') (hP : ∀ l, fs.Leads path l → ¬P l)
    (hr : fs.read path = .ok b) : fs'.read path = .ok b := by
  have ⟨l, hl, hb⟩ := read_eq_ok.mp hr
  exact read_eq_ok.mpr ⟨l, h.dirs.leads.mp hl, (h.nodes l (hP l hl)).trans hb⟩

end Confined

theorem confined_put (h : fs.node? l ≠ some .dir) (b : Bytes) :
    Confined (· = l) fs (fs.put l (.file b)) :=
  ⟨sameDirs_put h b, fun l' hl => (node?_put h _ l').trans (if_neg hl)⟩

theorem confined_drop (h : fs.node? l ≠ some .dir) : Confined (· = l) fs (fs.drop l) :=
  ⟨sameDirs_drop h, fun l' hl => (node?_drop h l').trans (if_neg hl)⟩

theorem confined_write (h : fs.write path b = .ok fs') : Confined (fs.Leads path) fs fs' := by
  obtain ⟨l, hl, hn, rfl⟩ := write_eq_ok.mp h
  exact (confined_put hn b).imp fun _ h => h ▸ hl

theorem confined_remove (h : fs.remove path = .ok fs') : Confined (fs.Leads path) fs fs' := by
  obtain ⟨l, hl, ⟨b, hb⟩, rfl⟩ := remove_eq_ok.mp h
  exact (confined_drop (by simp [hb])).imp fun _ h => h ▸ hl

theorem confined_rename (h : fs.rename path target = .ok fs') :
    Confined (fun l => fs.Leads path l ∨ fs.Leads target l) fs fs' := by
  obtain ⟨l, hl, l', hl', hd, b, hb, rfl⟩ := rename_eq_ok.mp h
  have hn : fs.node? l ≠ some .dir := by simp [hb]
  have hn' : (fs.drop l).node? l' ≠ some .dir := (sameDirs_drop hn l').not.mp hd
  exact ((confined_drop hn).imp fun _ h => .inl (h ▸ hl)).trans <|
    (confined_put hn' b).imp fun _ h => .inr (h ▸ hl')

-- A file is, or may be put, where the path leads to.
def Admits (fs : Files) (path : String) : Prop := ∃ l, fs.Leads path l ∧ fs.node? l ≠ some .dir

theorem SameDirs.admits (h : fs.SameDirs fs') : fs.Admits path ↔ fs'.Admits path :=
  exists_congr fun l => and_congr h.leads (h l).not

theorem find_eq_notFound (hl : fs.Leads path l) (hn : fs.node? l = none) :
    fs.find path = .error .notFound := by
  rw [find, hl]
  change fs.nodeAt _ = _
  simp [nodeAt, hn]

theorem read_of_write (h : fs.write path b = .ok fs') : fs'.read path = .ok b := by
  have hd := (confined_write h).dirs
  obtain ⟨l, hl, hn, rfl⟩ := write_eq_ok.mp h
  exact read_eq_ok.mpr ⟨l, hd.leads.mp hl, (node?_put hn _ l).trans (if_pos rfl)⟩

theorem Admits.write (h : fs.Admits path) (b : Bytes) :
    ∃ fs', fs.write path b = .ok fs' ∧ fs'.read path = .ok b := by
  have ⟨l, hl, hn⟩ := h
  have hw : fs.write path b = .ok (fs.put l (.file b)) := write_eq_ok.mpr ⟨l, hl, hn, rfl⟩
  exact ⟨_, hw, read_of_write hw⟩

theorem Leads.ne_append {suffix : String} (hs : suffix ≠ "") (hs' : '/' ∉ suffix.toList)
    (h : fs.Leads path l) (h' : fs.Leads (path ++ suffix) l') : l ≠ l' := by
  have ⟨ps, name, hp, hp'⟩ := FilePath.parts_append path hs'
  have ⟨d, hl, hl'⟩ := walk_append (hp ▸ h.walk) (hp' ▸ h'.walk)
  subst hl hl'
  intro he
  have he := congrArg String.length he
  have hn : suffix.length ≠ 0 := by simpa using hs
  rw [inside, inside] at he
  split at he <;> simp only [String.length_append] at he <;> omega

end Files
end Inference
