import Mathlib.Data.Fintype.EquivFin
import WorkWaves.Proofs.Disk.Changes
import WorkWaves.Proofs.Paths

/-!
# Trees as disks without links

A tree shows a disk on which there are no links and each file is at one place (`Disk.Shows`). Paths lead on both to the
same (`Shows.locate_eq`, `Shows.read_eq`), and what a tree answers to a call is one of the ways in which the disk can
answer it (`Shows.answer`).
-/

namespace WorkWaves

variable {d d' : Disk} {t t' : FileTree} {p q place : Place} {e : FileEntry} {c : Component}
  {cs front back : List Component} {last : Bool} {links number : Nat} {path source target text : String}

namespace FileTree

/-- All that is anywhere lies in a directory. -/
def Rooted (t : FileTree) : Prop := ∀ p s, t.entry? (p ++ [s]) ≠ none → t.entry? p = some .directory

theorem rooted_of_entries (h : ∀ e ∈ t.entries, t.entry? e.1.dropLast = some .directory) : t.Rooted := by
  intro p s hp
  unfold entry? at hp
  rw [if_neg (by simp)] at hp
  obtain ⟨e, he⟩ := Option.ne_none_iff_exists'.mp hp
  obtain ⟨before, after, hentries, -⟩ := List.lookup_eq_some_iff.mp he
  have hdir := h (p ++ [s], e) (by simp [hentries])
  rwa [List.dropLast_concat] at hdir

theorem entry?_remove_below (h : place <+: p) (hne : p ≠ []) : entry? (t.remove place) p = none := by
  unfold entry? remove
  rw [if_neg hne, List.lookup_eq_none_iff]
  intro e he
  have hk := (List.mem_filter.mp he).2
  rw [Bool.not_eq_true', Bool.eq_false_iff] at hk
  rw [bne_iff_ne]
  rintro rfl
  exact hk (List.isPrefixOf_iff_prefix.mpr h)

theorem entry?_of_directory (h : t.directory path = .ok place) : t.entry? place = some .directory := by
  unfold directory at h
  rw [locate_of_directory h] at h
  dsimp only [bind, Except.bind] at h
  split at h
  · assumption
  · cases h
  · cases h

/-- Where no file can be read, none is taken away. -/
theorem removeFile_eq_self {e : FileFault} (h : t.read path = .error e) : t.removeFile path = t := by
  unfold read at h
  unfold removeFile
  cases hl : t.locate path with
  | error e => rfl
  | ok q =>
    rw [hl] at h
    dsimp only [bind, Except.bind] at h ⊢
    split
    · next text hq => simp [hq] at h
    · rfl

/-- The first entry at a place, by its number. -/
theorem getElem?_findIdx {l : List (Place × FileEntry)} (h : l.lookup p = some e) :
    l[l.findIdx (·.1 == p)]? = some (p, e) := by
  induction l with
  | nil => cases h
  | cons a l ih =>
    obtain ⟨k, v⟩ := a
    rw [List.findIdx_cons]
    by_cases hk : k = p
    · subst hk
      rw [List.lookup_cons_self] at h
      simpa using h
    · rw [List.lookup_cons, beq_false_of_ne (Ne.symm hk)] at h
      rw [beq_false_of_ne hk]
      exact ih h

/-- A disk that a tree shows, whose files are numbered as the tree lists them. -/
def disk (t : FileTree) (hr : t.Rooted) (hh : t.entry? t.here = some .directory) : Disk where
  node? p := (t.entry? p).map fun
    | .directory => .directory
    | .file _ => .file (t.entries.findIdx (·.1 == p))
  text number :=
    match t.entries[number]? with
    | some (_, .file text) => text
    | _ => ""
  here := t.here
  root := rfl
  rooted p s hs := by rw [hr p s fun hn => hs (by rw [hn]; rfl)]; rfl
  settled := by rw [hh]; rfl

end FileTree

namespace Disk

/-- What a tree shows of a node. -/
def shown (d : Disk) : Node → Option FileEntry
  | .directory => some .directory
  | .file number => some (.file (d.text number))
  | .link _ => none

/-- A disk without links, where every file is at one place. -/
structure Plain (d : Disk) : Prop where
  link : ∀ p path, d.node? p ≠ some (.link path)
  file : ∀ p q number, d.node? p = some (.file number) → d.node? q = some (.file number) → p = q

/-- A tree has at each place what a plain disk has there. -/
structure Shows (d : Disk) (t : FileTree) : Prop where
  plain : d.Plain
  here : d.here = t.here
  entry : ∀ p, t.entry? p = (d.node? p).bind d.shown

theorem shows_disk (hr : t.Rooted) (hh : t.entry? t.here = some .directory) : (t.disk hr hh).Shows t := by
  have hnode (p : Place) (number : Nat) (hp : (t.disk hr hh).node? p = some (.file number)) :
      ∃ text, t.entry? p = some (.file text) ∧ t.entries[number]? = some (p, .file text) := by
    simp only [FileTree.disk, Option.map_eq_some_iff] at hp
    obtain ⟨e, he, hn⟩ := hp
    cases e with
    | directory => cases hn
    | file text =>
      cases hn
      have hne : p ≠ [] := FileTree.ne_nil_of_not_directory (t := t) (by simp [he])
      refine ⟨text, he, FileTree.getElem?_findIdx ?_⟩
      rwa [FileTree.entry?, if_neg hne] at he
  refine ⟨⟨fun p path hp => ?_, fun p q number hp hq => ?_⟩, rfl, fun p => ?_⟩
  · simp only [FileTree.disk, Option.map_eq_some_iff] at hp
    obtain ⟨e, -, hn⟩ := hp
    cases e <;> cases hn
  · obtain ⟨_, -, hp⟩ := hnode p number hp
    obtain ⟨_, -, hq⟩ := hnode q number hq
    rw [hp] at hq
    cases hq
    rfl
  · cases he : t.entry? p with
    | none => simp [FileTree.disk, he]
    | some e =>
      cases e with
      | directory => simp [FileTree.disk, he, shown]
      | file text =>
        obtain ⟨text', he', hnumber⟩ := hnode p (t.entries.findIdx (·.1 == p)) (by simp [FileTree.disk, he])
        rw [he] at he'
        cases he'
        simp [FileTree.disk, he, shown, hnumber]

namespace Shows

theorem none_iff (h : d.Shows t) : t.entry? p = none ↔ d.node? p = none := by
  rw [h.entry]
  have hp := h.plain.link p
  cases hn : d.node? p with
  | none => simp
  | some n => cases n <;> simp_all [shown]

theorem directory_iff (h : d.Shows t) : t.entry? p = some .directory ↔ d.node? p = some .directory := by
  rw [h.entry]
  cases d.node? p with
  | none => simp
  | some n => cases n <;> simp [shown]

theorem file_iff (h : d.Shows t) :
    t.entry? p = some (.file text) ↔ ∃ number, d.node? p = some (.file number) ∧ d.text number = text := by
  rw [h.entry]
  cases d.node? p with
  | none => simp
  | some n => cases n <;> simp [shown]

/-! ### Where paths lead -/

theorem step_eq (h : d.Shows t) (p : Place) (c : Component) : d.step p c = t.step p c := by
  unfold Disk.step FileTree.step
  have hp := h.plain.link p
  rw [h.entry]
  cases hn : d.node? p with
  | none => rfl
  | some n =>
    cases n with
    | directory | file => rfl
    | link path => exact absurd hn (hp path)

theorem walk_eq (h : d.Shows t) : d.walk last links p cs = (cs.foldlM t.step p).map fun q => (q, links) := by
  induction links, p, cs using d.walk_induct last with
  | nil links p => rw [walk_nil]; rfl
  | stuck links p c cs e hs =>
    rw [walk_stuck hs, List.foldlM_cons, ← h.step_eq, hs]
    rfl
  | on links p c cs q hs hq ih =>
    rw [walk_on hs hq, ih, List.foldlM_cons, ← h.step_eq, hs]
    rfl
  | stay links p c q path _ _ hq => exact absurd hq (h.plain.link q path)
  | lost p c cs q path _ _ hq => exact absurd hq (h.plain.link q path)
  | turn links p c cs q path _ _ hq => exact absurd hq (h.plain.link q path)

theorem locate_eq (h : d.Shows t) : d.locate last path = t.locate path := by
  unfold Disk.locate FileTree.locate
  rw [h.walk_eq, h.here]
  cases path.isEmpty with
  | true => rfl
  | false =>
    cases FileTree.pathFault? path with
    | some e => rfl
    | none =>
      cases (Path.components path).foldlM t.step t.here with
      | error e => rfl
      | ok q =>
        have hlink := h.plain.link q
        simp only [Bool.false_eq_true, if_false, Except.map, bind, Except.bind, h.entry]
        cases hn : d.node? q with
        | none => rfl
        | some n =>
          cases n with
          | directory | file => rfl
          | link path => exact absurd hn (hlink path)

theorem read_eq (h : d.Shows t) (path : String) : d.read path = t.read path := by
  unfold Disk.read FileTree.read
  rw [h.locate_eq]
  cases t.locate path with
  | error e => rfl
  | ok q =>
    have hlink := h.plain.link q
    simp only [bind, Except.bind, h.entry]
    cases hn : d.node? q with
    | none => rfl
    | some n =>
      cases n with
      | directory | file => rfl
      | link path => exact absurd hn (hlink path)

/-! ### Places that change -/

theorem alter (h : d.Shows t) {n : Option Node} (hq : d.node? q ≠ some .directory)
    (hn : n ≠ none → d.node? q.dropLast = some .directory) (hlink : ∀ path, n ≠ some (.link path))
    (hfile : ∀ number, n = some (.file number) → ∀ p, d.node? p ≠ some (.file number))
    (here : t'.here = t.here) (hentry : ∀ p, t'.entry? p = if p = q then n.bind d.shown else t.entry? p) :
    (d.alter q n hq hn).Shows t' := by
  have hnode (p : Place) : (d.alter q n hq hn).node? p = if p = q then n else d.node? p := Function.update_apply ..
  refine ⟨⟨fun p path => ?_, fun p p' number hp hp' => ?_⟩, h.here.trans here.symm, fun p => ?_⟩
  · rw [hnode]
    split
    · exact hlink path
    · exact h.plain.link p path
  · rw [hnode] at hp hp'
    split at hp <;> split at hp'
    · simp [*]
    · exact absurd hp' (hfile number hp p')
    · exact absurd hp (hfile number hp' p)
    · exact h.plain.file p p' number hp hp'
  · rw [hnode, hentry]
    split
    · rfl
    · rw [h.entry]
      rfl

theorem fill (h : d.Shows t) (hn : d.node? q = some (.file number)) (here : t'.here = t.here)
    (hentry : ∀ p, t'.entry? p = if p = q then some (.file text) else t.entry? p) : (d.fill number text).Shows t' := by
  refine ⟨⟨h.plain.link, h.plain.file⟩, h.here.trans here.symm, fun p => ?_⟩
  rw [hentry]
  split
  · next hp =>
    subst hp
    simp [Disk.fill, hn, shown]
  · next hp =>
    rw [h.entry]
    cases hn' : d.node? p with
    | none => simp [Disk.fill, hn']
    | some n =>
      cases n with
      | directory | link path => simp [Disk.fill, hn', shown]
      | file number' =>
        have hne : number' ≠ number := by
          rintro rfl
          exact hp (h.plain.file p q number' hn' hn)
        simp [Disk.fill, hn', shown, hne]

theorem entry?_remove (h : d.Shows t) (hq : d.node? q ≠ some .directory) :
    FileTree.entry? (t.remove q) p = if p = q then none else t.entry? p := by
  by_cases hp : q <+: p
  · have hne : p ≠ [] := by
      rintro rfl
      exact hq (List.prefix_nil.mp hp ▸ d.root)
    rw [FileTree.entry?_remove_below hp hne]
    split
    · rfl
    · next hpq => exact (h.none_iff.mpr (node?_eq_none_below hq hp hpq)).symm
  · rw [FileTree.entry?_remove hp, if_neg]
    rintro rfl
    exact hp List.prefix_rfl

theorem entry?_put (hq : d.node? q ≠ some .directory) :
    FileTree.entry? (t.put q e) p = if p = q then some e else t.entry? p := by
  refine FileTree.entry?_put ?_
  rintro rfl
  exact hq d.root

/-- What is found, and is no directory, lies in a directory. -/
theorem directory_of_locate (hl : d.locate false path = .ok q) (hq : d.node? q ≠ some .directory) :
    d.node? q.dropLast = some .directory := by
  obtain ⟨-, -, ⟨m, hw⟩, -⟩ := locate_eq_ok.mp hl
  rcases List.eq_nil_or_concat (Path.components path) with hcs | ⟨front, c, hcs⟩
  · rw [hcs, walk_nil] at hw
    cases hw
    exact absurd d.settled hq
  · rw [hcs, List.concat_eq_append] at hw
    obtain ⟨p, -, hs⟩ := walk_concat_eq_ok.mp hw
    obtain ⟨hdir, hend | ⟨s, -, rfl⟩⟩ := step_eq_ok hs
    · exact absurd hend hq
    · rwa [List.dropLast_concat]

/-- There are numbers left for new files. -/
theorem exists_number (h : d.Shows t) : ∃ number, ∀ p, d.node? p ≠ some (.file number) := by
  obtain ⟨number, hn⟩ := Infinite.exists_notMem_finset (t.entries.filterMap fun e => (d.node? e.1).bind Node.number?).toFinset
  refine ⟨number, fun p hp => hn ?_⟩
  have hentry := h.file_iff.mpr ⟨number, hp, rfl⟩
  unfold FileTree.entry? at hentry
  split at hentry
  · cases hentry
  · obtain ⟨before, after, hentries, -⟩ := List.lookup_eq_some_iff.mp hentry
    rw [List.mem_toFinset, List.mem_filterMap]
    exact ⟨(p, _), hentries ▸ List.mem_append_right before List.mem_cons_self, by simp [hp, Node.number?]⟩

/-! ### Calls -/

theorem puts (h : d.Shows t) (hw : t.write path text = .ok t') : ∃ d', Puts path text d d' ∧ d'.Shows t' := by
  obtain ⟨q, hl, hasks, hq, rfl⟩ := FileTree.write_eq_ok hw
  have hq : d.node? q ≠ some .directory := fun hd => hq (h.directory_iff.mpr hd)
  have hl (last : Bool) : d.locate last path = .ok q := h.locate_eq.trans hl
  have hdir := directory_of_locate (hl false) hq
  have hlink := h.plain.link q
  cases hn : d.node? q with
  | none =>
    obtain ⟨number, hnew⟩ := h.exists_number
    have hmade : (d.alter q (some (.file number)) hq fun _ => hdir).Shows (t.put q (.file (d.text number))) :=
      h.alter hq (fun _ => hdir) (by simp) (by rintro _ ⟨⟩; exact hnew) rfl fun p => entry?_put hq
    refine ⟨(d.alter q (some (.file number)) hq fun _ => hdir).fill number text,
      ⟨q, number, hl true, .inr ⟨hn, hnew, rfl, rfl, rfl⟩⟩, hmade.fill (Function.update_self ..) rfl fun p => ?_⟩
    rw [entry?_put hq, entry?_put hq]
    split <;> rfl
  | some n =>
    cases n with
    | directory => exact absurd hn hq
    | link path => exact absurd hn (hlink path)
    | file number =>
      exact ⟨d.fill number text, ⟨q, number, hl true, .inl ⟨hn, rfl, rfl, rfl⟩⟩, h.fill hn rfl fun p => entry?_put hq⟩

theorem removes (h : d.Shows t) (hr : t.read path = .ok text) :
    ∃ d', Removes path d d' ∧ d'.Shows (t.removeFile path) := by
  obtain ⟨q, hl, hq⟩ := FileTree.read_eq_ok.mp hr
  obtain ⟨number, hn, -⟩ := h.file_iff.mp hq
  have hq' : d.node? q ≠ some .directory := by simp [hn]
  refine ⟨d.alter q none hq' (by simp), ⟨q, _, h.locate_eq.trans hl, hn, by simp, rfl, rfl, rfl⟩,
    h.alter hq' (by simp) (by simp) (by simp) ?_ fun p => ?_⟩
  · simp only [FileTree.removeFile, hl, hq]
    rfl
  · simp only [FileTree.removeFile, hl, hq]
    exact h.entry?_remove hq'

theorem moves (h : d.Shows t) (hr : t.rename source target = .ok t') :
    ∃ d', Moves source target d d' ∧ d'.Shows t' := by
  obtain ⟨a, b, text, ha, hb, hat, hbd, hasks, rfl⟩ := FileTree.rename_eq_ok hr
  obtain ⟨number, hn, htext⟩ := h.file_iff.mp hat
  have ha' : d.node? a ≠ some .directory := by simp [hn]
  have hb' : d.node? b ≠ some .directory := fun hd => hbd (h.directory_iff.mpr hd)
  have hl : d.locate false target = .ok b := h.locate_eq.trans hb
  have hentry (p : Place) : FileTree.entry? ((t.remove a).put b (.file text)) p =
      if p = b then some (.file text) else if p = a then none else t.entry? p := by
    rw [entry?_put hb', h.entry?_remove ha']
  by_cases hab : b = a
  · subst hab
    refine ⟨d, ⟨b, b, _, h.locate_eq.trans ha, hl, hasks, hn, by simp, hb', .inl ⟨number, rfl, hn, rfl⟩⟩,
      h.plain, h.here, fun p => ?_⟩
    rw [hentry, ← h.entry]
    split
    · next hp => rw [hp, hat]
    · rfl
  · have hgone : (d.alter a none ha' (by simp)).Shows (t.remove a) :=
      h.alter ha' (by simp) (by simp) (by simp) rfl fun p => h.entry?_remove ha'
    have hnode (p : Place) (hp : p ≠ a) : (d.alter a none ha' (by simp)).node? p = d.node? p :=
      Function.update_of_ne hp ..
    have hdir := directory_of_locate hl hb'
    have hdirne : b.dropLast ≠ a := fun he => ha' (he ▸ hdir)
    refine ⟨(d.alter a none ha' (by simp)).alter b (some (.file number)) (by rwa [hnode b hab])
      fun _ => (hnode _ hdirne).trans hdir,
      ⟨a, b, _, h.locate_eq.trans ha, hl, hasks, hn, by simp, hb', .inr ⟨?_, rfl, rfl, rfl⟩⟩, ?_⟩
    · rintro _ ⟨⟩ hbn
      exact hab (h.plain.file b a number hbn hn)
    · refine hgone.alter _ _ (by simp) ?_ rfl fun p => ?_
      · rintro _ ⟨⟩ p hp
        by_cases hpa : p = a
        · subst hpa
          simp [Disk.alter] at hp
        · rw [hnode p hpa] at hp
          exact hpa (h.plain.file p a number hp hn)
      · rw [hentry, ← h.entry?_remove ha']
        simp [shown, htext, Disk.alter]

/-- Along components that a path begins with, the disk can make the directories that the tree makes. -/
theorem makes {more : List Component} (h : d.Shows t) (front cs : List Component)
    (hcs : Path.components path = front ++ cs ++ more)
    (hw : d.walk false maxLinks d.here front = .ok (p, maxLinks)) : ∃ d', Relation.ReflTransGen (Makes path) d d' ∧
      d'.Shows (t.makeAlong p cs).1 ∧ ((t.makeAlong p cs).2 = .ok () → d.node? p = some .directory →
        ∃ q, d'.walk false maxLinks d'.here (front ++ cs) = .ok (q, maxLinks) ∧ d'.node? q = some .directory) := by
  induction cs generalizing d t p front with
  | nil => exact ⟨d, .refl, h, fun _ hp => ⟨p, by rwa [List.append_nil], hp⟩⟩
  | cons c cs ih =>
    have hcs' : Path.components path = front ++ [c] ++ cs ++ more := by simpa using hcs
    have hfront : d.walk true maxLinks d.here front = .ok (p, maxLinks) := walk_true_of_ok hw (h.plain.link p)
    unfold FileTree.makeAlong
    split
    · exact ⟨d, .refl, h, by simp⟩
    · next next hs =>
      have hnext : d.walk false maxLinks d.here (front ++ [c]) = .ok (next, maxLinks) :=
        walk_concat_eq_ok.mpr ⟨p, hfront, (h.step_eq p c).trans hs⟩
      have happ : front ++ c :: cs = front ++ [c] ++ cs := by simp
      split
      · next hdir =>
        obtain ⟨d', hmade, hshows, hwalk⟩ := ih h _ hcs' hnext
        exact ⟨d', hmade, hshows, fun hok _ => happ ▸ hwalk hok (h.directory_iff.mp hdir)⟩
      · exact ⟨d, .refl, h, by simp⟩
      · next hnone =>
        have hn := h.none_iff.mp hnone
        have hq : d.node? next ≠ some .directory := by simp [hn]
        have hp : d.node? next.dropLast = some .directory := by
          obtain ⟨hdir, hend | ⟨s, -, rfl⟩⟩ := step_eq_ok ((h.step_eq p c).trans hs)
          · exact absurd hend hq
          · rwa [List.dropLast_concat]
        have halters : Alters next (some .directory) d (d.alter next (some .directory) hq fun _ => hp) :=
          ⟨rfl, rfl, rfl⟩
        have hmade : Makes path d (d.alter next (some .directory) hq fun _ => hp) := by
          refine ⟨(front ++ [c]).length, next, maxLinks, ?_, hn, halters⟩
          rwa [hcs', List.append_assoc, List.take_left]
        have hshows : (d.alter next (some .directory) hq fun _ => hp).Shows (t.put next .directory) :=
          h.alter hq _ (by simp) (by simp) rfl fun p => entry?_put hq
        have hnext' := ((halters.grows hn).walk_eq (by simp [hnext])).trans hnext
        obtain ⟨d', hmade', hshows', hwalk⟩ := ih hshows _ hcs' hnext'
        exact ⟨d', hmade'.head hmade, hshows', fun hok _ => happ ▸ hwalk hok (Function.update_self ..)⟩

theorem makeDirectories (h : d.Shows t) (path : String) : ∃ d', Relation.ReflTransGen (Makes path) d d' ∧
    d'.Shows (t.makeDirectories path).1 ∧ ((t.makeDirectories path).2 = .ok () → ∃ q links,
      d'.walk true maxLinks d'.here (Path.components path) = .ok (q, links) ∧ d'.node? q = some .directory) := by
  have hmakes (cs more : List Component) (hcs : Path.components path = cs ++ more) := h.makes [] cs hcs walk_nil
  unfold FileTree.makeDirectories
  split
  · exact ⟨d, .refl, h, by simp⟩
  · rw [← h.here]
    split
    · obtain ⟨d', hmade, hshows, -⟩ := hmakes _ _ (List.take_append_drop ((Path.components path).length - 1) _).symm
      rw [← List.dropLast_eq_take] at hshows
      split
      · next t' hm =>
        rw [hm] at hshows
        refine ⟨d', hmade, hshows, fun hok => ?_⟩
        cases hd : t'.directory path with
        | error e => simp [hd, Except.map] at hok
        | ok q =>
          obtain ⟨-, -, ⟨m, hw⟩, -⟩ := locate_eq_ok.mp (hshows.locate_eq.trans (FileTree.locate_of_directory hd))
          exact ⟨q, m, hw, hshows.directory_iff.mp (FileTree.entry?_of_directory hd)⟩
      · next failed hfailed =>
        exact ⟨d', hmade, hshows, fun hok => (hfailed _ (Prod.ext rfl hok)).elim⟩
    · obtain ⟨d', hmade, hshows, hwalk⟩ := hmakes _ [] (List.append_nil _).symm
      refine ⟨d', hmade, hshows, fun hok => ?_⟩
      obtain ⟨q, hw, hq⟩ := hwalk hok d.settled
      exact ⟨q, maxLinks, walk_true_of_ok hw (by simp [hq]), hq⟩

/-- What a tree answers is one of the answers of a disk that it shows. -/
theorem answer (h : d.Shows t) (c : FileCall) : ∃ d', Ends c d (t.answer c).1 d' ∧ d'.Shows (t.answer c).2 := by
  cases c with
  | makeDirectories path =>
    obtain ⟨d', hmade, hshows, hwalk⟩ := h.makeDirectories path
    refine ⟨d', ?_, hshows⟩
    have hans : (t.answer (.makeDirectories path)).1 = (t.makeDirectories path).2 := rfl
    rw [hans]
    cases hr : (t.makeDirectories path).2 with
    | error e => exact hmade
    | ok _ => exact ⟨hmade, hwalk hr⟩
  | create path =>
    have hans : t.answer (.create path) = t.settle (t.write path "") := rfl
    rw [hans]
    cases hw : t.write path "" with
    | error e => exact ⟨d, Or.inl rfl, h⟩
    | ok t' => exact h.puts hw
  | write path text =>
    have hans : t.answer (.write path text) = t.settle (t.write path text) := rfl
    rw [hans]
    cases hw : t.write path text with
    | error e => exact ⟨d, Or.inl rfl, h⟩
    | ok t' => exact h.puts hw
  | sync path => exact ⟨d, rfl, h⟩
  | rename source target =>
    have hans : t.answer (.rename source target) = t.settle (t.rename source target) := rfl
    rw [hans]
    cases hr : t.rename source target with
    | error e => exact ⟨d, rfl, h⟩
    | ok t' => exact h.moves hr
  | removeFile path =>
    have hans : t.answer (.removeFile path) = ((t.read path).map fun _ => (), t.removeFile path) := rfl
    rw [hans]
    cases hr : t.read path with
    | error e => exact ⟨d, Or.inl rfl, by rwa [FileTree.removeFile_eq_self hr]⟩
    | ok text => exact h.removes hr

end Shows

end Disk

end WorkWaves
