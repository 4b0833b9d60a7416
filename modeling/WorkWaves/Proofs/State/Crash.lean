import WorkWaves.Proofs.Dialogue
import WorkWaves.Proofs.State.Store
import WorkWaves.Proofs.Trees

/-!
# At every point of a save

A save is followed call by call on a disk that may refuse each call, also part of the way. Until the file that was
written beside takes its place, directories were only added on the way and nothing else was changed but that file
(`Kept`), so what is loaded is what was loaded before; afterwards the file holds the new text (`Replaced`).
-/

namespace WorkWaves.StateStore

open Disk

variable {s : StateStore} {state : RunState} {d d' made t t' : Disk} {p place : Place} {text : String}

/-! ### Where the files are -/

/-- The path of the file that receives the new text is beside that of the file, or below it. -/
theorem components_temporary (s : StateStore) :
    (∃ name, Path.fileName? s.path = some name ∧
      Path.components s.temporary = (Path.components s.path).dropLast ++ [.name ("." ++ name ++ ".tmp")]) ∨
    Path.fileName? s.path = none ∧
      Path.components s.temporary = Path.components s.path ++ [.name ".state.json.tmp"] := by
  unfold temporary
  cases hf : Path.fileName? s.path with
  | none => exact .inr ⟨rfl, by rw [Path.components_withFileName (by decide) (by decide), hf]; rfl⟩
  | some name =>
    refine .inl ⟨name, rfl, ?_⟩
    have hname : Component.name name ∈ Path.components s.path := List.mem_of_getLast? (Path.getLast?_of_fileName? hf)
    have htmp : ("." ++ name ++ ".tmp").toList = '.' :: (name.toList ++ ['.', 't', 'm', 'p']) := by simp
    rw [Path.components_withFileName ?_ ?_, hf]
    · rfl
    · rw [Option.getD_some, htmp]
      simp [Path.slash_not_mem_of_name hname]
    · have hlong : name.toList ++ ['.', 't', 'm', 'p'] ≠ ['.'] := fun h => by simpa using congrArg List.length h
      rw [Option.getD_some, Path.component?, htmp, ← htmp, String.ofList_toList, htmp]
      simp [hlong]

theorem toList_temporary (s : StateStore) : ∃ l, s.temporary.toList = l ++ ['p'] := by
  have hjoin (a : String) {b : String} {l : List Char} (h : b.toList = l ++ ['p']) :
      ∃ l', (Path.join a b).toList = l' ++ ['p'] := by
    unfold Path.join
    split
    · exact ⟨l, h⟩
    · split
      · exact ⟨a.toList ++ l, by simp [h]⟩
      · exact ⟨a.toList ++ l, by simp [h]⟩
      · exact ⟨a.toList ++ '/' :: l, by simp [h]⟩
  have hname : ("." ++ (Path.fileName? s.path).getD "state.json" ++ ".tmp").toList =
      ('.' :: ((Path.fileName? s.path).getD "state.json").toList ++ ['.', 't', 'm']) ++ ['p'] := by simp
  unfold temporary Path.withFileName
  split
  · exact hjoin _ hname
  · exact hjoin _ hname

theorem asksForDirectory_temporary (s : StateStore) : FileTree.asksForDirectory s.temporary = false := by
  obtain ⟨l, hl⟩ := s.toList_temporary
  unfold FileTree.asksForDirectory
  rw [hl, List.reverse_append]
  rfl

/-- The path leads over a directory, the one that the file beside is in, to its last part, or to that directory. -/
theorem exists_directory (h : d.locate false s.temporary = .ok place) : ∃ front back dir m name,
    Path.components s.path = front ++ back ∧
      (back = [] ∧ Path.fileName? s.path = none ∨
        ∃ file, back = [.name file] ∧ file ≠ name ∧ front = (Path.components s.path).dropLast) ∧
      Path.components s.temporary = front ++ [.name name] ∧ d.walk true maxLinks d.here front = .ok (dir, m) ∧
      d.node? dir = some .directory ∧ place = dir ++ [name] := by
  obtain ⟨-, -, ⟨k, hw⟩, -⟩ := locate_eq_ok.mp h
  rcases components_temporary s with ⟨file, hf, htmp⟩ | ⟨hf, htmp⟩ <;> rw [htmp] at hw
  · obtain ⟨dir, hdir, hs⟩ := walk_concat_eq_ok.mp hw
    have hlast := Path.getLast?_of_fileName? hf
    refine ⟨_, [.name file], dir, k, _, (List.dropLast_append_getLast? _ hlast).symm, .inr ⟨file, rfl, ?_, rfl⟩, htmp,
      hdir, (step_eq_ok hs).1, eq_of_step_name hs⟩
    intro he
    have hlen := congrArg String.length he
    rw [String.length_append, String.length_append] at hlen
    have hpoint : ".".length = 1 := rfl
    omega
  · obtain ⟨dir, hdir, hs⟩ := walk_concat_eq_ok.mp hw
    exact ⟨_, [], dir, k, _, (List.append_nil _).symm, .inl ⟨rfl, hf⟩, htmp, hdir, (step_eq_ok hs).1,
      eq_of_step_name hs⟩

/-- A path without a file name leads to a directory. -/
theorem directory_of_fileName?_eq_none (hf : Path.fileName? s.path = none) (h : d.locate false s.path = .ok place) :
    d.node? place = some .directory := by
  obtain ⟨-, -, ⟨k, hw⟩, -⟩ := locate_eq_ok.mp h
  rcases List.eq_nil_or_concat (Path.components s.path) with hcs | ⟨front, c, hcs⟩
  · rw [hcs, walk_nil] at hw
    cases hw
    exact d.settled
  · rw [List.concat_eq_append] at hcs
    rw [hcs] at hw
    obtain ⟨dir, -, hs⟩ := walk_concat_eq_ok.mp hw
    refine (step_eq_ok hs).2.resolve_right ?_
    rintro ⟨file, rfl, -⟩
    simp [Path.fileName?, hcs] at hf

/-! ### What a save relies on -/

/-- What a save relies on where there are links, however directories are made on the way. -/
structure Apart (s : StateStore) (d : Disk) : Prop where
  /-- What is beside the file is a directory, or no link, and then no other place bears it. -/
  loose {made : Disk} {place : Place} (hg : Grown s.path d made) (hl : made.locate false s.temporary = .ok place)
    (hp : made.node? place ≠ some .directory) : made.Loose place
  /-- If the file is a link, the path does not lead over it to itself. -/
  way {made : Disk} {place : Place} {path : String} (hg : Grown s.path d made)
    (hl : made.locate false s.path = .ok place) (hp : made.node? place = some (.link path)) :
    ¬ made.Meets made.here (Path.components s.path).dropLast place
  /-- If the file is a link, what is beside it is not where that leads. -/
  target {made : Disk} {place beside : Place} {path : String} (hg : Grown s.path d made)
    (hl : made.locate false s.path = .ok place) (hp : made.node? place = some (.link path))
    (hb : made.locate false s.temporary = .ok beside) (hn : made.node? beside ≠ some .directory) :
    ¬ made.Meets made.here (Path.components s.path) beside

theorem Apart.not_meets (h : s.Apart d) (hg : Grown s.path d made) (hl : made.locate false s.temporary = .ok place)
    (hloose : made.Loose place) (hp : s.path.isEmpty = false ∧ FileTree.pathFault? s.path = none) :
    ¬ made.Meets made.here (Path.components s.path) place := by
  intro hm
  obtain ⟨front, back, dir, m, name, hcs, hback, -, hw, hdir, rfl⟩ := exists_directory hl
  have hm' := hcs ▸ hm
  rcases (reaches_of_walk hw).meets_append hm' with hfront | hlast
  · rcases (reaches_of_walk hw).way_of_meets hdir hfront with hdir | ⟨path, hlink⟩
    · exact hloose.not_directory hdir
    · exact hloose.not_link path hlink
  · rcases hback with ⟨rfl, -⟩ | ⟨file, rfl, hne, -⟩
    · cases hlast
    · cases hlast with
      | next hs => exact hne (by simpa using (eq_of_step_name hs).symm)
      | on _ _ hlast => cases hlast
      | turn hs hq _ =>
        have hwalk := walk_concat_eq_ok.mpr ⟨dir, hw, hs⟩
        rw [← hcs] at hwalk
        exact h.target hg (locate_eq_ok.mpr ⟨hp.1, hp.2, ⟨m, hwalk⟩, by simp [hq]⟩) hq hl hloose.not_directory hm

/-- Where there are no links and no second names of files, a save can rely on that. -/
theorem apart_of_plain (h : d.Plain) : s.Apart d := by
  have hsame {made : Disk} {p : Place} (hg : Grown s.path d made) (hp : made.node? p ≠ some .directory) :
      made.node? p = d.node? p := (hg.grows.node p).resolve_right fun hnew => hp hnew.2
  have hlink {made : Disk} {p : Place} {path : String} (hg : Grown s.path d made)
      (hp : made.node? p = some (.link path)) : False := h.link p path (hg.grows.link_iff.mp hp)
  refine ⟨fun {made place} hg _ hp => ?_, fun hg _ hp => (hlink hg hp).elim, fun hg _ hp => (hlink hg hp).elim⟩
  cases hn : made.node? place with
  | none => exact .inl hn
  | some n =>
    cases n with
    | directory => exact absurd hn hp
    | link path => exact (hlink hg hn).elim
    | file number =>
      refine .inr ⟨number, hn, fun q hq => ?_⟩
      exact h.file q place number ((hsame hg (by simp [hq])).symm.trans hq) ((hsame hg hp).symm.trans hn)

/-- Where the file is there, it matters only that it is no link and what is beside it. -/
theorem apart_of_read (hr : d.read s.path = .ok text)
    (hbeside : ∀ place, d.locate false s.temporary = .ok place → d.node? place ≠ some .directory → d.Loose place)
    (hlink : ∀ place path, d.locate false s.path = .ok place → d.node? place ≠ some (.link path)) : s.Apart d := by
  refine ⟨fun hg hl hp => ?_, fun hg hl hp => ?_, fun hg hl hp => ?_⟩ <;> obtain rfl := hg.eq_of_read hr
  · exact hbeside _ hl hp
  · exact absurd hp (hlink _ _ hl)
  · exact absurd hp (hlink _ _ hl)

/-! ### What a save does -/

/-- A directory was made at a place on the way, where nothing was. -/
def MadeAt (s : StateStore) (d t : Disk) (p : Place) : Prop :=
  d.node? p = none ∧ t.node? p = some .directory ∧ ∃ n < (Path.components s.path).length, ∃ m,
    t.walk false maxLinks t.here ((Path.components s.path).take n) = .ok (p, m)

/-- What was or is at the place beside the file is no directory. -/
def BesideAt (s : StateStore) (d t : Disk) (p : Place) : Prop :=
  t.locate false s.temporary = .ok p ∧ d.node? p ≠ some .directory ∧ t.node? p ≠ some .directory

/-- The file itself was not touched yet. -/
structure Kept (s : StateStore) (d t : Disk) : Prop where
  read : d.read s.path ≠ .error .notFound ∨ d.Straight s.path → t.read s.path = d.read s.path
  places : ∀ p, SameAt d t p ∨ MadeAt s d t p ∨ BesideAt s d t p

theorem Kept.directory (h : Kept s d t) (hp : d.node? p = some .directory) : t.node? p = some .directory := by
  rcases h.places p with hsame | ⟨hnone, -⟩ | ⟨-, hdir, -⟩
  · exact hsame.node.trans hp
  · simp [hp] at hnone
  · exact absurd hp hdir

/-- The file that was written beside has taken the place of the file. -/
structure Replaced (s : StateStore) (state : RunState) (d t : Disk) : Prop where
  read : t.read s.path = .ok state.fileText
  gone : ∃ place, t.locate false s.temporary = .ok place ∧ t.node? place = none
  places : ∀ p, SameAt d t p ∨ MadeAt s d t p ∨ BesideAt s d t p ∨
    t.locate false s.path = .ok p ∧ d.node? p ≠ some .directory

/-- Directories were made, and then nothing was changed but the file beside. -/
def Beside (s : StateStore) (d t : Disk) : Prop :=
  ∃ made, Grown s.path d made ∧ (t = made ∨ ∃ place, made.locate false s.temporary = .ok place ∧ SameOff place made t)

/-- The file beside holds a text. -/
def Holds (s : StateStore) (text : String) (t : Disk) : Prop :=
  ∃ place number, t.locate false s.temporary = .ok place ∧ t.node? place = some (.file number) ∧ t.text number = text

namespace Beside

theorem of_grown (h : Grown s.path d t) : Beside s d t := ⟨t, h, .inl rfl⟩

/-- If there is something beside the file that can be changed, nothing was changed but that. -/
theorem exists_place (hb : Beside s d t) (h : s.Apart d)
    (hq : ∃ q, t.locate false s.temporary = .ok q ∧ t.node? q ≠ some .directory) :
    ∃ made place, Grown s.path d made ∧ made.locate false s.temporary = .ok place ∧ SameOff place made t ∧
      t.locate false s.temporary = .ok place := by
  obtain ⟨made, hg, rfl | ⟨place, hl, hs⟩⟩ := hb
  · obtain ⟨q, hl, hq⟩ := hq
    exact ⟨t, q, hg, hl, .refl (h.loose hg hl hq), hl⟩
  · exact ⟨made, place, hg, hl, hs, hs.sameWays.locate_eq_ok hl (asksForDirectory_temporary s)⟩

theorem puts (hb : Beside s d t) (h : s.Apart d) (hp : Puts s.temporary text t t') :
    Beside s d t' ∧ Holds s text t' := by
  obtain ⟨made, place, hg, hl, hs, hlt⟩ := hb.exists_place h hp.exists_locate
  obtain ⟨hs', number, hfile, htext⟩ := hp.sameOff hlt hs.after
  exact ⟨⟨made, hg, .inr ⟨place, hl, hs.trans hs'⟩⟩, place, number,
    hs'.sameWays.locate_eq_ok hlt (asksForDirectory_temporary s), hfile, htext⟩

theorem removes (hb : Beside s d t) (h : s.Apart d) (hr : Removes s.temporary t t') : Beside s d t' := by
  obtain ⟨made, place, hg, hl, hs, hlt⟩ := hb.exists_place h hr.exists_locate
  exact ⟨made, hg, .inr ⟨place, hl, hs.trans (hr.sameOff hlt hs.after)⟩⟩

theorem kept (hb : Beside s d t) (h : s.Apart d) : Kept s d t := by
  obtain ⟨made, hg, rfl | ⟨place, hl, hs⟩⟩ := hb
  · refine ⟨hg.read_eq, fun p => ?_⟩
    rcases hg.node p with hp | ⟨hnone, hdir, hway⟩
    · exact .inl (hg.grows.sameAt hp)
    · exact .inr (.inl ⟨hnone, hdir, hway⟩)
  · refine ⟨fun hpath => (?_ : t.read s.path = made.read s.path).trans (hg.read_eq hpath), fun p => ?_⟩
    · by_cases hp : s.path.isEmpty = false ∧ FileTree.pathFault? s.path = none
      · have hnot := h.not_meets hg hl hs.before hp
        have hhere : made.here ≠ place := fun he => hs.before.not_directory (he ▸ made.settled)
        have hne {q : Place} (hq : made.Meets made.here (Path.components s.path) q) : q ≠ place :=
          fun he => hnot (he ▸ hq)
        refine read_congr ?_ fun q m hq => ?_
        · rw [hs.here]
          exact walk_congr (hs.others _ hhere).node fun q hq => (hs.others q (hne hq)).node
        · rcases (reaches_of_walk hq).meets with rfl | hq
          · exact hs.others _ hhere
          · exact hs.others q (hne hq)
      · exact read_eq_of_wrong hp
    · by_cases hp : p = place
      · subst hp
        refine .inr (.inr ⟨hs.sameWays.locate_eq_ok hl (asksForDirectory_temporary s), fun hdir => ?_,
          hs.after.not_directory⟩)
        exact hs.before.not_directory ((hg.grows.kept (by simp [hdir])).trans hdir)
      · have hsame := hs.others p hp
        rcases hg.node p with hp | ⟨hnone, hdir, n, hn, m, hw⟩
        · exact .inl ((hg.grows.sameAt hp).trans hsame)
        · exact .inr (.inl ⟨hnone, hsame.node.trans hdir, n, hn, m, hs.here ▸ hs.sameWays.walk_eq_ok hw⟩)

end Beside

/-! ### When the file beside is moved -/

/-- In a directory that the path leads over, the file `number` has become the one that the path names, and the one
beside is gone. -/
structure Moved (s : StateStore) (front : List Component) (dir : Place) (file name : String) (number : Nat)
    (t t' : Disk) : Prop where
  path : Path.components s.path = front ++ [.name file]
  temporary : Path.components s.temporary = front ++ [.name name]
  differ : file ≠ name
  walk : ∃ m, t.walk true maxLinks t.here front = .ok (dir, m)
  directory : t.node? dir = some .directory
  beside : t.locate false s.temporary = .ok (dir ++ [name])
  target : t.locate false s.path = .ok (dir ++ [file])
  asks : FileTree.asksForDirectory s.path = false
  source : t.node? (dir ++ [name]) = some (.file number)
  replaces : t.node? (dir ++ [file]) ≠ some .directory
  node : t'.node? = Function.update (Function.update t.node? (dir ++ [name]) none) (dir ++ [file]) (some (.file number))
  text : t'.text = t.text
  here : t'.here = t.here
  /-- The path does not lead over what is changed. -/
  way : ∀ q, t.Meets t.here front q → q ≠ dir ++ [name] ∧ q ≠ dir ++ [file]

theorem Beside.moved (hb : Beside s d t) (h : s.Apart d) (hh : Holds s text t) (hm : Moves s.temporary s.path t t') :
    ∃ front dir file name number, Moved s front dir file name number t t' ∧ t.text number = text := by
  obtain ⟨place, number, hl, hfile, htext⟩ := hh
  obtain ⟨made, place', hg, hlm, hs, hlt⟩ := hb.exists_place h ⟨place, hl, by simp [hfile]⟩
  obtain rfl : place = place' := Except.ok.inj (hl.symm.trans hlt)
  obtain ⟨front, back, dir, m, name, hcs, hback, htmp, hw, hdir, rfl⟩ := exists_directory hl
  have hlast {file : String} {b : Place} (hback : back = [.name file]) (hb : t.locate false s.path = .ok b) :
      b = dir ++ [file] := by
    obtain ⟨-, -, ⟨k, hwb⟩, -⟩ := locate_eq_ok.mp hb
    rw [hcs, hback] at hwb
    obtain ⟨r, hr, hs⟩ := walk_concat_eq_ok.mp hwb
    rw [hw] at hr
    cases hr
    exact eq_of_step_name hs
  have hne : t.locate false s.path ≠ .ok (dir ++ [name]) := by
    intro hb
    rcases hback with ⟨-, hf⟩ | ⟨file, hback, hne, -⟩
    · exact hs.after.not_directory (directory_of_fileName?_eq_none hf hb)
    · exact hne (by simpa using (hlast hback hb).symm)
  obtain ⟨b, hlb, hasks, hbdir, hnode, htext', hhere⟩ := hm.node hl hs.after hfile hne
  rcases hback with ⟨-, hf⟩ | ⟨file, rfl, hdiffer, hfront⟩
  · exact absurd (directory_of_fileName?_eq_none hf hlb) hbdir
  obtain rfl := hlast rfl hlb
  refine ⟨front, dir, file, name, number, ⟨hcs, htmp, hdiffer, ⟨m, hw⟩, hdir, hl, hlb, hasks, hfile, hbdir, hnode,
    htext', hhere, fun q hq => ?_⟩, htext⟩
  -- What is on the way are directories and links; a link that the path names is not on the way to itself.
  rcases (reaches_of_walk hw).way_of_meets hdir hq with hqdir | ⟨path, hlink⟩
  · exact ⟨fun he => hs.after.not_directory (he ▸ hqdir), fun he => hbdir (he ▸ hqdir)⟩
  · refine ⟨fun he => hs.after.not_link path (he ▸ hlink), ?_⟩
    rintro rfl
    have hlinkm := (hs.sameWays.link _ path).mp hlink
    have hlm : made.locate false s.path = .ok (dir ++ [file]) := hs.sameWays.symm.locate_eq_ok hlb hasks
    refine h.way hg hlm hlinkm ?_
    rw [← hfront, ← hs.here]
    exact hs.sameWays.symm.meets hq

namespace Moved

variable {front : List Component} {dir : Place} {file name : String} {number m : Nat}

theorem node_of_ne (hm : Moved s front dir file name number t t') (hn : p ≠ dir ++ [name]) (hf : p ≠ dir ++ [file]) :
    t'.node? p = t.node? p := by
  rw [hm.node, Function.update_of_ne hf, Function.update_of_ne hn]

theorem node_of_directory (hm : Moved s front dir file name number t t') (hp : t.node? p = some .directory) :
    t'.node? p = t.node? p := by
  refine hm.node_of_ne ?_ ?_
  · rintro rfl
    simp [hm.source] at hp
  · rintro rfl
    exact hm.replaces hp

/-- The way to the directory is as it was. -/
theorem walk_eq (hm : Moved s front dir file name number t t') {cs : List Component} {last : Bool}
    (hcs : cs <+: front) : t'.walk last maxLinks t'.here cs = t.walk last maxLinks t.here cs := by
  obtain ⟨rest, rfl⟩ := hcs
  rw [hm.here]
  refine walk_congr (hm.node_of_directory t.settled) fun q hq => ?_
  obtain ⟨hn, hf⟩ := hm.way q (hq.append_right rest)
  exact hm.node_of_ne hn hf

theorem step_eq (hm : Moved s front dir file name number t t') (c : Component) : t'.step dir c = t.step dir c :=
  step_congr (hm.node_of_directory hm.directory) c

/-- Names in the directory lead where they led, if there is nothing else. -/
theorem locate_eq (hm : Moved s front dir file name number t t') {path last : String} (hl : t.locate false path = .ok p)
    (hcs : Path.components path = front ++ [.name last]) (hasks : FileTree.asksForDirectory path = false) :
    t'.locate false path = .ok p := by
  obtain ⟨he, hf, ⟨k, hw⟩, -⟩ := locate_eq_ok.mp hl
  refine locate_eq_ok.mpr ⟨he, hf, ⟨k, ?_⟩, by simp [hasks]⟩
  rw [hcs] at hw ⊢
  obtain ⟨r, hr, hs⟩ := walk_concat_eq_ok.mp hw
  obtain ⟨m, hfront⟩ := hm.walk
  obtain rfl : r = dir := congrArg Prod.fst (Except.ok.inj (hr.symm.trans hfront))
  exact walk_concat_eq_ok.mpr ⟨r, (hm.walk_eq List.prefix_rfl).trans hr, (hm.step_eq _).trans hs⟩

theorem locate_target (hm : Moved s front dir file name number t t') : t'.locate false s.path = .ok (dir ++ [file]) :=
  hm.locate_eq hm.target hm.path hm.asks

theorem locate_beside (hm : Moved s front dir file name number t t') :
    t'.locate false s.temporary = .ok (dir ++ [name]) :=
  hm.locate_eq hm.beside hm.temporary (asksForDirectory_temporary s)

theorem node_target (hm : Moved s front dir file name number t t') :
    t'.node? (dir ++ [file]) = some (.file number) := by
  simp [hm.node]

theorem node_beside (hm : Moved s front dir file name number t t') : t'.node? (dir ++ [name]) = none := by
  have hne : dir ++ [name] ≠ dir ++ [file] := by simpa using Ne.symm hm.differ
  simp [hm.node, hne]

theorem read_eq (hm : Moved s front dir file name number t t') : t'.read s.path = .ok (t.text number) :=
  read_eq_ok.mpr ⟨_, number, locate_true_of_false hm.locate_target (by simp [hm.node_target]), hm.node_target,
    by rw [hm.text]⟩

theorem madeAt (hm : Moved s front dir file name number t t') (hp : MadeAt s d t p) : MadeAt s d t' p := by
  obtain ⟨hnone, hdir, n, hn, m, hw⟩ := hp
  refine ⟨hnone, (hm.node_of_directory hdir).trans hdir, n, hn, m, ?_⟩
  rw [hm.path] at hn hw ⊢
  rw [List.length_append, List.length_singleton] at hn
  rw [List.take_append_of_le_length (by omega)] at hw ⊢
  exact (hm.walk_eq (List.take_prefix n front)).trans hw

end Moved

theorem Beside.replaced (hb : Beside s d t) (h : s.Apart d) (hh : Holds s state.fileText t)
    (hm : Moves s.temporary s.path t t') : Replaced s state d t' := by
  obtain ⟨front, dir, file, name, number, hm, htext⟩ := hb.moved h hh hm
  refine ⟨hm.read_eq.trans (congrArg _ htext), ⟨_, hm.locate_beside, hm.node_beside⟩, fun p => ?_⟩
  have hkept := hb.kept h
  by_cases hn : p = dir ++ [name]
  · subst hn
    refine .inr (.inr (.inl ⟨hm.locate_beside, fun hdir => ?_, by simp [hm.node_beside]⟩))
    simpa [hm.source] using hkept.directory hdir
  · by_cases hf : p = dir ++ [file]
    · subst hf
      exact .inr (.inr (.inr ⟨hm.locate_target, fun hdir => hm.replaces (hkept.directory hdir)⟩))
    · rcases hkept.places p with hsame | hmade | ⟨hl, -⟩
      · exact .inl (hsame.trans ⟨hm.node_of_ne hn hf, fun j _ => by rw [hm.text]⟩)
      · exact .inr (.inl (hm.madeAt hmade))
      · exact absurd (Except.ok.inj (hl.symm.trans hm.beside)) hn

/-! ### The calls of a save -/

/-- The file is as it was, or it is replaced. -/
abbrev Whole (s : StateStore) (state : RunState) (d t : Disk) : Prop := Kept s d t ∨ Replaced s state d t

/-- What a save has come to when it ends. -/
def Settled (s : StateStore) (state : RunState) (d : Disk) : Except StateError Unit → Disk → Prop
  | .ok (), t => Replaced s state d t
  | .error _, t => Kept s d t

theorem grown_of_makes {parent : String} (hp : Path.parent? s.path = some parent)
    (h : Relation.ReflTransGen (Makes parent) d t) : Grown s.path d t :=
  Relation.ReflTransGen.mono (fun _ _ => makesBefore_of_makes hp) _ _ h

theorem makingParent_keeps (s : StateStore) (state : RunState) (d : Disk) (h : s.Apart d) :
    s.makingParent.Keeps During Ends (Whole s state d) (fun _ t => Grown s.path d t) d := by
  have hkept {t : Disk} (ht : Grown s.path d t) : Whole s state d t := .inl ((Beside.of_grown ht).kept h)
  unfold makingParent
  split
  · exact ⟨hkept .refl, .refl⟩
  · exact ⟨hkept .refl, .refl⟩
  · next parent _ hp =>
    refine ⟨hkept .refl, fun t ht => hkept (grown_of_makes hp ht), fun r t ht => ?_⟩
    have hgrown : Grown s.path d t := by
      cases r with
      | ok _ => exact grown_of_makes hp ht.1
      | error e => exact grown_of_makes hp ht
    exact ⟨hkept hgrown, hgrown⟩

theorem writingBeside_keeps (h : s.Apart d) (hb : Beside s d t) (text : String) :
    (s.writingBeside text).Keeps During Ends (Whole s state d)
      (fun r t => Beside s d t ∧ (r = .ok () → Holds s text t)) t := by
  have hkept {t : Disk} (hb : Beside s d t) : Whole s state d t := .inl (hb.kept h)
  have hputs {t t' : Disk} {text : String} (hb : Beside s d t) (ht : t' = t ∨ Puts s.temporary text t t') :
      Beside s d t' := by
    rcases ht with rfl | ht
    · exact hb
    · exact (hb.puts h ht).1
  have hcut {t t' : Disk} (hb : Beside s d t) (ht : t' = t ∨ ∃ text, Puts s.temporary text t t') : Beside s d t' := by
    rcases ht with rfl | ⟨text, ht⟩
    · exact hb
    · exact (hb.puts h ht).1
  refine ⟨hkept hb, fun t' ht => hkept (hputs hb ht), fun r created hc => ?_⟩
  cases r with
  | error e => exact ⟨hkept (hputs hb hc), hputs hb hc, by simp⟩
  | ok _ =>
    obtain ⟨hcreated, -⟩ := hb.puts h hc
    refine ⟨hkept hcreated, fun t' ht => hkept (hcut hcreated ht), fun r written hw => ?_⟩
    cases r with
    | error e => exact ⟨hkept (hcut hcreated hw), hcut hcreated hw, by simp⟩
    | ok _ =>
      obtain ⟨hwritten, hholds⟩ := hcreated.puts h hw
      refine ⟨hkept hwritten, ?_, fun r t' ht => ?_⟩
      · rintro _ rfl
        exact hkept hwritten
      · obtain rfl : t' = written := by cases r <;> exact ht
        exact ⟨hkept hwritten, hwritten, fun _ => hholds⟩

theorem givingUp_keeps (h : s.Apart d) (hb : Beside s d t) (e : StateError) :
    (s.givingUp e).Keeps During Ends (Whole s state d) (Settled s state d) t := by
  have hremoves {t' : Disk} (ht : t' = t ∨ Removes s.temporary t t') : Beside s d t' := by
    rcases ht with rfl | ht
    · exact hb
    · exact hb.removes h ht
  refine ⟨.inl (hb.kept h), fun t' ht => .inl ((hremoves ht).kept h), fun r t' ht => ?_⟩
  have hb' : Beside s d t' := by
    cases r with
    | ok _ => exact hremoves (.inr ht)
    | error e => exact hremoves ht
  exact ⟨.inl (hb'.kept h), hb'.kept h⟩

theorem saving_keeps (h : s.Apart d) (state : RunState) :
    (s.saving state).Keeps During Ends (Whole s state d) (Settled s state d) d := by
  refine (makingParent_keeps s state d h).andThen fun r made hg => ?_
  have hmade := Beside.of_grown hg
  cases r with
  | error e => exact ⟨.inl (hmade.kept h), hmade.kept h⟩
  | ok _ =>
    refine (writingBeside_keeps h hmade state.fileText).andThen fun r t ⟨hb, hholds⟩ => ?_
    cases r with
    | error e => exact givingUp_keeps h hb _
    | ok _ =>
      have hr {t' : Disk} (ht : Moves s.temporary s.path t t') : Replaced s state d t' := hb.replaced h (hholds rfl) ht
      refine ⟨.inl (hb.kept h), ?_, fun r t' ht => ?_⟩
      · rintro t' (rfl | ht)
        · exact .inl (hb.kept h)
        · exact .inr (hr ht)
      · cases r with
        | error e =>
          obtain rfl : t' = t := ht
          exact givingUp_keeps h hb _
        | ok _ => exact ⟨.inr (hr ht), hr ht⟩

/-! ### What is loaded -/

/-- The state that is kept on a disk; none if there is no file. -/
def loadOn (s : StateStore) (d : Disk) : Except StateError (Option RunState) := s.loaded (d.read s.path)

theorem loaded_ne_none_iff {r : Except FileFault String} : s.loaded r ≠ .ok none ↔ r ≠ .error .notFound := by
  unfold loaded
  split
  · simp
  · simp_all
  · split <;> simp

theorem loadOn_eq_load {files : FileTree} (h : d.Shows files) : s.loadOn d = s.load files :=
  congrArg s.loaded (h.read_eq s.path)

theorem Kept.loadOn_eq (h : Kept s d t) (hpath : s.loadOn d ≠ .ok none ∨ d.Straight s.path) :
    s.loadOn t = s.loadOn d :=
  congrArg s.loaded (h.read (hpath.imp_left loaded_ne_none_iff.mp))

theorem ends_refused (c : FileCall) (d : Disk) (e : FileFault) : Ends c d (.error e) d := by
  cases c with
  | makeDirectories path => exact Relation.ReflTransGen.refl
  | create path | write path text | removeFile path => exact Or.inl rfl
  | sync path | rename source target => exact rfl

/-- What comes of a save of a tree is one of the things that can come of it on a disk that the tree shows. -/
theorem yields_of_saveWith {fault : SaveStep → Option FileFault} {files files' : FileTree}
    {r : Except StateError Unit} (h : d.Shows files) (hsave : s.saveWith fault state files = (files', r)) :
    ∃ t, Dialogue.Yields Ends (s.saving state) d r t ∧ t.Shows files' := by
  have hanswer (c : FileCall) (d : Disk) (files : FileTree) (h : d.Shows files) :
      ∃ t, Ends c d (answerWith fault c files).1 t ∧ t.Shows (answerWith fault c files).2 := by
    unfold answerWith
    split
    · next e _ => exact ⟨d, ends_refused c d e, h⟩
    · exact h.answer c
  obtain ⟨t, hy, hshows⟩ := Dialogue.Yields.of_run hanswer (s.saving state) h
  have hrun : (s.saving state).run (answerWith fault) files = (r, files') := Prod.swap_inj.mp hsave
  rw [hrun] at hy hshows
  exact ⟨t, hy, hshows⟩

/-- However a save goes on a disk that may refuse each call, get only part of the way with it and keep what is to be
cleaned up: if it fails, what is loaded is what was loaded, if there was a state or the path goes straight on from where
nothing was; at every point the file is as it was or holds the whole new text; if it succeeds, it does, and the file
beside is gone. All along, directories are made only where nothing was on the way to the file, and else nothing changes
but the file beside and, once it is replaced, the file. What a save makes of a tree is among this. -/
theorem kept_or_replaced (s : StateStore) (state : RunState) (d : Disk) (h : s.Apart d) :
    (∀ e t, Dialogue.Yields Ends (s.saving state) d (.error e) t →
      Kept s d t ∧ (s.loadOn d ≠ .ok none ∨ d.Straight s.path → s.loadOn t = s.loadOn d)) ∧
    (∀ t, Dialogue.Sees During Ends (s.saving state) d t → Kept s d t ∨ Replaced s state d t) ∧
    (∀ t, Dialogue.Yields Ends (s.saving state) d (.ok ()) t → Replaced s state d t) ∧
    (∀ files : FileTree, files.Rooted → files.entry? files.here = some .directory →
      ∃ disk : Disk, disk.Shows files ∧ s.Apart disk ∧ ∀ fault files' r, s.saveWith fault state files = (files', r) →
        ∃ t, Dialogue.Yields Ends (s.saving state) disk r t ∧ t.Shows files') ∧
    (∀ name, Path.fileName? s.path = some name → Path.components s.temporary =
      (Path.components s.path).dropLast ++ [.name ("." ++ name ++ ".tmp")]) := by
  have hkeeps := saving_keeps h state
  refine ⟨fun e t hy => ?_, fun t hs => hkeeps.sees hs, fun t hy => hkeeps.yields hy, fun files hroot hh => ?_,
    fun name hname => ?_⟩
  · have hkept : Kept s d t := hkeeps.yields hy
    exact ⟨hkept, hkept.loadOn_eq⟩
  · have hshows := shows_disk hroot hh
    exact ⟨_, hshows, apart_of_plain hshows.plain, fun fault files' r => yields_of_saveWith hshows⟩
  · rcases components_temporary s with ⟨name', hname', htmp⟩ | ⟨hnone, -⟩
    · rw [hname] at hname'
      cases hname'
      exact htmp
    · rw [hname] at hnone
      cases hnone

/-- A directory with a file, and with another that an earlier save left beside it. -/
def runsTree : FileTree where
  entries := [(["runs"], .directory), (["runs", "s.json"], .file "old"), (["runs", ".s.json.tmp"], .file "left")]

theorem runsTree_rooted : runsTree.Rooted := FileTree.rooted_of_entries (by decide)

/-- The directory is also reached by a link. -/
def linkedRuns : Disk :=
  (runsTree.disk runsTree_rooted rfl).alter ["now"] (some (.link "runs")) (by decide) fun _ => rfl

theorem read_linkedRuns : linkedRuns.read "now/s.json" = .ok "old" := by decide +kernel

theorem linkedRuns_apart : (StateStore.mk "now/s.json").Apart linkedRuns := by
  have hbeside : linkedRuns.locate false (StateStore.mk "now/s.json").temporary = .ok ["runs", ".s.json.tmp"] := by
    decide +kernel
  have hfile : linkedRuns.locate false "now/s.json" = .ok ["runs", "s.json"] := by decide +kernel
  refine apart_of_read read_linkedRuns (fun place hl _ => ?_) fun place path hl hp => ?_
  · rw [hbeside] at hl
    cases hl
    refine .inr ⟨2, rfl, fun q hq => ?_⟩
    by_cases hnow : q = ["now"]
    · subst hnow
      cases hq
    · have hq : (runsTree.disk runsTree_rooted rfl).node? q = some (.file 2) :=
        (Function.update_of_ne hnow ..).symm.trans hq
      exact (shows_disk runsTree_rooted rfl).plain.file q _ 2 hq rfl
  · rw [hfile] at hl
    cases hl
    cases hp

/-- The new text is in the file beside, but that can neither be moved nor be taken away. -/
theorem loadOn_of_linkedRuns : (StateStore.mk "now/s.json").Apart linkedRuns ∧ ∃ e t,
    Dialogue.Yields Ends ((StateStore.mk "now/s.json").saving awkward) linkedRuns (.error e) t ∧
      t.read "runs/.s.json.tmp" = .ok awkward.fileText ∧
      (StateStore.mk "now/s.json").loadOn t = (StateStore.mk "now/s.json").loadOn linkedRuns := by
  have hcourse (state : RunState) : ∃ t, Dialogue.Yields Ends ((StateStore.mk "now/s.json").saving state) linkedRuns
      (.error (.write "now/s.json" .denied)) t ∧ t.read "runs/.s.json.tmp" = .ok state.fileText := by
    let created : Disk := linkedRuns.fill 2 ""
    let written : Disk := created.fill 2 state.fileText
    have hbeside : linkedRuns.locate true "now/.s.json.tmp" = .ok ["runs", ".s.json.tmp"] := by decide +kernel
    have hbeside' : linkedRuns.locate true "runs/.s.json.tmp" = .ok ["runs", ".s.json.tmp"] := by decide +kernel
    have hwalk : linkedRuns.walk true maxLinks linkedRuns.here (Path.components "now") = .ok (["runs"], 39) := by
      decide +kernel
    have hmake : Ends (.makeDirectories "now") linkedRuns (.ok ()) linkedRuns := ⟨.refl, ["runs"], 39, hwalk, rfl⟩
    have hcreate : Ends (.create "now/.s.json.tmp") linkedRuns (.ok ()) created :=
      ⟨["runs", ".s.json.tmp"], 2, hbeside, .inl ⟨rfl, rfl, rfl, rfl⟩⟩
    have hwrite : Ends (.write "now/.s.json.tmp" state.fileText) created (.ok ()) written :=
      ⟨["runs", ".s.json.tmp"], 2, locate_fill.trans hbeside, .inl ⟨rfl, rfl, rfl, rfl⟩⟩
    have hsync : Ends (.sync "now/.s.json.tmp") written (.ok ()) written := rfl
    have hrename : Ends (.rename "now/.s.json.tmp" "now/s.json") written (.error .denied) written := rfl
    have hremove : Ends (.removeFile "now/.s.json.tmp") written (.error .denied) written := Or.inl rfl
    refine ⟨written, .ask hmake (.ask hcreate (.ask hwrite (.ask hsync (.ask hrename (.ask hremove (.done _ _)))))), ?_⟩
    exact read_eq_ok.mpr ⟨["runs", ".s.json.tmp"], 2, (locate_fill.trans locate_fill).trans hbeside', rfl,
      by simp [written, fill]⟩
  obtain ⟨t, hy, hbeside⟩ := hcourse awkward
  have hload : (StateStore.mk "now/s.json").loadOn linkedRuns ≠ .ok none :=
    loaded_ne_none_iff.mpr (by simp [read_linkedRuns])
  exact ⟨linkedRuns_apart, _, t, hy, hbeside,
    ((kept_or_replaced ⟨"now/s.json"⟩ awkward linkedRuns linkedRuns_apart).1 _ _ hy).2 (.inl hload)⟩

/-! ### Where a save changes more -/

/-- Making the directory of this file puts one in its place, so what is loaded changes although the save fails. -/
theorem load_of_loop : (StateStore.mk "x/../x").load {} = .ok none ∧ ∃ files',
    (StateStore.mk "x/../x").save awkward {} = (files', .error (.write "x/../x" .isDirectory)) ∧
      (StateStore.mk "x/../x").load files' = .error (.read "x/../x" .isDirectory) := by
  have hsave := @save_eq_of_steps ⟨"x/../x"⟩ awkward {} _ _ _ rfl rfl rfl
  exact ⟨rfl, _, hsave, rfl⟩

/-- A disk with the file of the state and another. -/
def twoFiles : Disk :=
  FileTree.disk { entries := [(["s.json"], .file "old"), (["other"], .file "kept")] }
    (FileTree.rooted_of_entries (by decide)) rfl

/-- Beside the file there is a link to the other. -/
def linkBeside : Disk := twoFiles.alter [".s.json.tmp"] (some (.link "other")) (by decide) fun _ => rfl

/-- The other file is also beside the file. -/
def nameBeside : Disk := twoFiles.alter [".s.json.tmp"] (some (.file 1)) (by decide) fun _ => rfl

/-- The file is a link to the one beside. -/
def linkToBeside : Disk :=
  (FileTree.disk { entries := [([".s.json.tmp"], .file "old")] } (FileTree.rooted_of_entries (by decide)) rfl).alter
    ["s.json"] (some (.link ".s.json.tmp")) (by decide) fun _ => rfl

/-- A file in the working directory is seen when it is made or has lost its text. -/
theorem sees_created {path : String} (hparent : Path.parent? path = some "")
    (hputs : Puts (StateStore.mk path).temporary "" d t) :
    Dialogue.Sees During Ends ((StateStore.mk path).saving state) d t := by
  unfold saving makingParent
  rw [hparent]
  exact .during (Or.inr hputs)

theorem read_other_of_linkBeside : linkBeside.read "other" = .ok "kept" ∧ ∃ t,
    Dialogue.Sees During Ends ((StateStore.mk "s.json").saving state) linkBeside t ∧ t.read "other" = .ok "" :=
  ⟨rfl, linkBeside.fill 1 "", sees_created rfl ⟨["other"], 1, rfl, .inl ⟨rfl, rfl, rfl, rfl⟩⟩, rfl⟩

theorem read_other_of_nameBeside : nameBeside.read "other" = .ok "kept" ∧ ∃ t,
    Dialogue.Sees During Ends ((StateStore.mk "s.json").saving state) nameBeside t ∧ t.read "other" = .ok "" :=
  ⟨rfl, nameBeside.fill 1 "", sees_created rfl ⟨[".s.json.tmp"], 1, rfl, .inl ⟨rfl, rfl, rfl, rfl⟩⟩, rfl⟩

theorem read_of_linkToBeside : linkToBeside.read "s.json" = .ok "old" ∧ ∃ t,
    Dialogue.Sees During Ends ((StateStore.mk "s.json").saving state) linkToBeside t ∧ t.read "s.json" = .ok "" :=
  ⟨rfl, linkToBeside.fill 0 "", sees_created rfl ⟨[".s.json.tmp"], 0, rfl, .inl ⟨rfl, rfl, rfl, rfl⟩⟩, rfl⟩

theorem fileText_ne_empty (hstate : state.Writable) : state.fileText ≠ "" := by
  intro h
  have hread := RunState.ofText_fileText hstate
  rw [h] at hread
  cases hread

/-- A link to the directory that it is in. -/
def ownWay : Disk :=
  (FileTree.disk {} (FileTree.rooted_of_entries (by simp)) rfl).alter ["l"] (some (.link ".")) (by decide) fun _ => rfl

/-- A file was made beside that link. -/
def ownWayMade : Disk := ownWay.alter [".l.tmp"] (some (.file 0)) (by decide) fun _ => rfl

/-- The file has taken the place of the link. -/
def ownWayMoved : Disk :=
  (ownWayMade.alter [".l.tmp"] none (by decide) (by simp)).alter ["l"] (some (.file 0)) (by decide) fun _ => rfl

/-- What a path goes over is replaced, so it leads nowhere although the save succeeds. -/
theorem read_of_ownWay : ∃ t, Dialogue.Yields Ends ((StateStore.mk "l/l").saving state) ownWay (.ok ()) t ∧
    t.read "l/l" = .error .notDirectory := by
  let created : Disk := ownWayMade.fill 0 ""
  let written : Disk := created.fill 0 state.fileText
  let moved : Disk := (ownWayMoved.fill 0 "").fill 0 state.fileText
  have hnew (p : Place) : ownWay.node? p ≠ some (.file 0) := by
    simp only [ownWay, alter, Function.update_apply, FileTree.disk, FileTree.entry?, List.lookup_nil]
    split
    · simp
    · split <;> simp
  have hbeside (last : Bool) : ownWayMade.locate last "l/.l.tmp" = .ok [".l.tmp"] := by cases last <;> decide +kernel
  have htarget : ownWayMade.locate false "l/l" = .ok ["l"] := by decide +kernel
  have hlink : written.node? ["l"] = some (.link ".") := (rfl : ownWayMade.node? ["l"] = some (.link "."))
  have hmake : Ends (.makeDirectories "l") ownWay (.ok ()) ownWay := ⟨.refl, [], 39, by decide +kernel, rfl⟩
  have hcreate : Ends (.create "l/.l.tmp") ownWay (.ok ()) created :=
    ⟨[".l.tmp"], 0, by decide +kernel, .inr ⟨rfl, hnew, rfl, rfl, rfl⟩⟩
  have hwrite : Ends (.write "l/.l.tmp" state.fileText) created (.ok ()) written :=
    ⟨[".l.tmp"], 0, locate_fill.trans (hbeside true), .inl ⟨rfl, rfl, rfl, rfl⟩⟩
  have hsync : Ends (.sync "l/.l.tmp") written (.ok ()) written := rfl
  have hrename : Ends (.rename "l/.l.tmp" "l/l") written (.ok ()) moved :=
    ⟨[".l.tmp"], ["l"], .file 0, (locate_fill.trans locate_fill).trans (hbeside false),
      (locate_fill.trans locate_fill).trans htarget, rfl, rfl, by simp, by simp [hlink],
      .inr ⟨by simp [hlink], rfl, rfl, rfl⟩⟩
  have hlost : moved.locate true "l/l" = .error .notDirectory :=
    (locate_fill.trans locate_fill).trans (by decide +kernel)
  refine ⟨moved, .ask hmake (.ask hcreate (.ask hwrite (.ask hsync (.ask hrename (.done _ _))))), ?_⟩
  unfold Disk.read
  rw [hlost]

/-- A path through a directory that is not there yet; a link or a second name of another file beside the file; a link to
the file beside in the place of the file; and a link in that place over which the path goes. -/
theorem read_changed_of_detours :
    ((StateStore.mk "x/../x").load {} = .ok none ∧ ∃ files' e,
      (StateStore.mk "x/../x").save awkward {} = (files', .error e) ∧ (StateStore.mk "x/../x").load files' ≠ .ok none) ∧
    (linkBeside.read "other" = .ok "kept" ∧ ∃ t,
      Dialogue.Sees During Ends ((StateStore.mk "s.json").saving awkward) linkBeside t ∧ t.read "other" = .ok "") ∧
    (nameBeside.read "other" = .ok "kept" ∧ ∃ t,
      Dialogue.Sees During Ends ((StateStore.mk "s.json").saving awkward) nameBeside t ∧ t.read "other" = .ok "") ∧
    (linkToBeside.read "s.json" = .ok "old" ∧ awkward.fileText ≠ "" ∧ ∃ t,
      Dialogue.Sees During Ends ((StateStore.mk "s.json").saving awkward) linkToBeside t ∧ t.read "s.json" = .ok "") ∧
    (∃ t, Dialogue.Yields Ends ((StateStore.mk "l/l").saving awkward) ownWay (.ok ()) t ∧
      t.read "l/l" = .error .notDirectory) := by
  obtain ⟨hload, files', hsave, hload'⟩ := load_of_loop
  obtain ⟨hold, hseen⟩ := @read_of_linkToBeside awkward
  exact ⟨⟨hload, files', _, hsave, by simp [hload']⟩, read_other_of_linkBeside, read_other_of_nameBeside,
    ⟨hold, fileText_ne_empty awkward_writable, hseen⟩, read_of_ownWay⟩

end WorkWaves.StateStore
