import WorkWaves.Proofs.Disk.Walks
import WorkWaves.Proofs.Parents

/-!
# How disks change

Where only directories were added, what led to something leads there (`Grows.walk_eq`); and a path that goes straight on
from where nothing is still leads to nothing when directories were made before its end (`Grown.read_eq`). Calls that put
or take away a file of its own change nothing elsewhere (`Puts.sameOff`, `Removes.sameOff`).
-/

namespace WorkWaves.Disk

variable {d d' d'' : Disk} {p q place : Place} {cs front back : List Component} {last : Bool} {links m : Nat}
  {path text : String}

/-! ### Disks that grow -/

/-- Directories were added where nothing was. -/
structure Grows (d d' : Disk) : Prop where
  here : d'.here = d.here
  node : ∀ p, d'.node? p = d.node? p ∨ d.node? p = none ∧ d'.node? p = some .directory
  text : d'.text = d.text

namespace Grows

theorem refl (d : Disk) : Grows d d := ⟨rfl, fun _ => .inl rfl, rfl⟩

theorem trans (h : Grows d d') (h' : Grows d' d'') : Grows d d'' := by
  refine ⟨h'.here.trans h.here, fun p => ?_, h'.text.trans h.text⟩
  rcases h'.node p with hp | ⟨hnone, hdir⟩
  · rw [hp]
    exact h.node p
  · rcases h.node p with hp | ⟨hnone', -⟩
    · exact .inr ⟨hp ▸ hnone, hdir⟩
    · exact .inr ⟨hnone', hdir⟩

theorem kept (h : Grows d d') (hp : d.node? p ≠ none) : d'.node? p = d.node? p :=
  (h.node p).resolve_right fun hnew => hp hnew.1

theorem link_iff (h : Grows d d') : d'.node? p = some (.link path) ↔ d.node? p = some (.link path) := by
  rcases h.node p with hp | ⟨hnone, hdir⟩
  · rw [hp]
  · simp [hnone, hdir]

theorem sameAt (h : Grows d d') (hp : d'.node? p = d.node? p) : SameAt d d' p := ⟨hp, fun _ _ => by rw [h.text]⟩

/-- What a walk led to before, it still leads to. -/
theorem walk_eq (h : Grows d d') (hw : d.walk last links p cs ≠ .error .notFound) :
    d'.walk last links p cs = d.walk last links p cs := by
  have hstep {links : Nat} {p : Place} {c : Component} {cs : List Component}
      (hw : d.walk last links p (c :: cs) ≠ .error .notFound) : d'.step p c = d.step p c :=
    step_congr (h.kept fun hp => hw (walk_stuck (step_of_none hp c))) c
  induction links, p, cs using d.walk_induct last with
  | nil links p => rw [walk_nil, walk_nil]
  | stuck links p c cs e hs => rw [walk_stuck hs, walk_stuck ((hstep hw).trans hs)]
  | on links p c cs q hs hq ih =>
    have hs' := (hstep hw).trans hs
    rw [walk_on hs hq] at hw ⊢
    rw [walk_on hs' fun path => mt h.link_iff.mp (hq path)]
    exact ih hw
  | stay links p c q path hlast hs hq =>
    subst hlast
    rw [walk_stay hs hq, walk_stay ((hstep hw).trans hs) (h.link_iff.mpr hq)]
  | lost p c cs q path hgo hs hq =>
    rw [walk_lost hgo hs hq, walk_lost hgo ((hstep hw).trans hs) (h.link_iff.mpr hq)]
  | turn links p c cs q path hgo hs hq ih =>
    have hs' := (hstep hw).trans hs
    rw [walk_turn hgo hs hq] at hw ⊢
    rw [walk_turn hgo hs' (h.link_iff.mpr hq)]
    exact ih hw

/-- What was read on a path is still read on it. -/
theorem read_eq (h : Grows d d') (hr : d.read path ≠ .error .notFound) : d'.read path = d.read path := by
  by_cases hp : path.isEmpty = false ∧ FileTree.pathFault? path = none
  · rw [Disk.read_eq hp.1 hp.2] at hr
    refine read_congr ?_ fun q m hq => h.sameAt (h.kept fun hn => hr (by simp [hq, hn]))
    rw [h.here]
    exact h.walk_eq fun hn => hr (by simp [hn])
  · exact read_eq_of_wrong hp

end Grows

/-! ### Directories on the way -/

/-- A directory is made where a first part of the path leads and nothing is. -/
def MakesBefore (path : String) (d d' : Disk) : Prop :=
  ∃ n < (Path.components path).length, ∃ q m,
    d.walk false maxLinks d.here ((Path.components path).take n) = .ok (q, m) ∧ d.node? q = none ∧
      Alters q (some .directory) d d'

/-- Directories are made before the end of a path. -/
abbrev Grown (path : String) : Disk → Disk → Prop := Relation.ReflTransGen (MakesBefore path)

theorem makesBefore_of_makes {parent : String} (hp : Path.parent? path = some parent) (h : Makes parent d d') :
    MakesBefore path d d' := by
  obtain ⟨n, q, m, hw, hq, ha⟩ := h
  obtain ⟨c, hc⟩ := Path.components_of_parent? hp
  refine ⟨min n (Path.components parent).length, ?_, q, m, ?_, hq, ha⟩
  · rw [hc, List.length_append, List.length_singleton]
    omega
  · rwa [hc, List.take_append_of_le_length (Nat.min_le_right _ _), ← List.take_eq_take_min]

theorem Alters.grows (h : Alters q (some .directory) d d') (hq : d.node? q = none) : Grows d d' := by
  refine ⟨h.here, fun p => ?_, h.text⟩
  rw [h.node, Function.update_apply]
  split
  · next hp => exact .inr ⟨hp ▸ hq, rfl⟩
  · exact .inl rfl

theorem MakesBefore.grows (h : MakesBefore path d d') : Grows d d' := by
  obtain ⟨n, -, q, m, -, hq, ha⟩ := h
  exact ha.grows hq

theorem Grown.grows (h : Grown path d d') : Grows d d' := by
  induction h with
  | refl => exact .refl d
  | tail _ h ih => exact ih.trans h.grows

/-- What was added is on the way. -/
theorem Grown.node (h : Grown path d d') (p : Place) : d'.node? p = d.node? p ∨ d.node? p = none ∧
    d'.node? p = some .directory ∧ ∃ n < (Path.components path).length, ∃ m,
      d'.walk false maxLinks d'.here ((Path.components path).take n) = .ok (p, m) := by
  induction h with
  | refl => exact .inl rfl
  | @tail d₁ d₂ h hmake ih =>
    have hgrows := hmake.grows
    obtain ⟨n, hn, q, m, hw, hq, ha⟩ := hmake
    have hwalk {cs : List Component} {w : Place × Nat} (hw : d₁.walk false maxLinks d₁.here cs = .ok w) :
        d₂.walk false maxLinks d₂.here cs = .ok w := by
      rw [hgrows.here, hgrows.walk_eq (by simp [hw]), hw]
    have hnode : d₂.node? p = if p = q then some .directory else d₁.node? p := by rw [ha.node, Function.update_apply]
    by_cases hpq : p = q
    · subst hpq
      rw [if_pos rfl] at hnode
      have hnone : d.node? p = none := ih.elim (fun hp => hp ▸ hq) And.left
      exact .inr ⟨hnone, hnode, n, hn, m, hwalk hw⟩
    · rw [if_neg hpq] at hnode
      rw [hnode]
      exact ih.imp_right fun ⟨hnone, hdir, n, hn, m, hw⟩ => ⟨hnone, hdir, n, hn, m, hwalk hw⟩

/-- From where it leads to nothing, a path goes on by names only, and by none that is too long. -/
def Straight (d : Disk) (path : String) : Prop :=
  ∀ front back q m, Path.components path = front ++ back → d.walk false maxLinks d.here front = .ok (q, m) →
    d.node? q = none → ∀ c ∈ back, ∃ s, c = .name s ∧ s.utf8ByteSize ≤ FileTree.longestName

theorem Grows.walk_of_names (h : Grows d d') (last : Bool) (links : Nat) (hq : d.node? q = none)
    (hnames : ∀ c ∈ cs, ∃ s, c = .name s ∧ s.utf8ByteSize ≤ FileTree.longestName) :
    d'.walk last links q cs = .error .notFound ∨ d'.walk last links q cs = .ok (q ++ Path.names cs, links) := by
  induction cs generalizing q with
  | nil => exact .inr (by simp [Path.names])
  | cons c cs ih =>
    obtain ⟨⟨s, rfl, hs⟩, hrest⟩ := List.forall_mem_cons.mp hnames
    rcases h.node q with hq' | ⟨-, hq'⟩
    · exact .inl (walk_stuck (step_of_none (hq'.trans hq) _))
    · have hbelow : d.node? (q ++ [s]) = none :=
        node?_eq_none_below (by simp [hq]) (List.prefix_append q [s]) (by simp)
      rw [walk_on (step_name hq' hs) fun path => mt h.link_iff.mp (by simp [hbelow])]
      simpa [Path.names] using ih hbelow hrest

theorem length_names (hnames : ∀ c ∈ cs, ∃ s, c = Component.name s) : (Path.names cs).length = cs.length := by
  induction cs with
  | nil => rfl
  | cons c cs ih =>
    obtain ⟨⟨s, rfl⟩, hrest⟩ := List.forall_mem_cons.mp hnames
    exact congrArg (· + 1) (ih hrest)

section Missing

variable (hcs : Path.components path = front ++ back) (hback : back ≠ [])
  (hfront : d.walk false maxLinks d.here front = .ok (q, m)) (hq : d.node? q = none)
  (hnames : ∀ c ∈ back, ∃ s, c = .name s ∧ s.utf8ByteSize ≤ FileTree.longestName)

include hfront hq in
theorem Grows.walk_front (h : Grows d d') : d'.walk true maxLinks d'.here front = .ok (q, m) := by
  have hw : d.walk true maxLinks d.here front = .ok (q, m) := walk_true_of_ok hfront (by simp [hq])
  rw [h.here, h.walk_eq (by simp [hw]), hw]

include hcs hback hfront hq hnames in
/-- Where nothing is on a straight path, no directory is made at its end. -/
theorem Grown.node_end (h : Grown path d d') : d'.node? (q ++ Path.names back) = none := by
  have hplain (c : Component) (hc : c ∈ back) : ∃ s, c = Component.name s := (hnames c hc).imp fun _ => And.left
  induction h with
  | refl =>
    refine node?_eq_none_below (by simp [hq]) (List.prefix_append q _) fun he => hback ?_
    rw [← List.length_eq_zero_iff, ← length_names hplain, List.append_right_eq_self.mp he]
    rfl
  | @tail d₁ d₂ h hmake ih =>
    have hgrows := Grown.grows h
    obtain ⟨k, hk, r, m', hw, hr, ha⟩ := hmake
    rw [ha.node, Function.update_of_ne, ih]
    rintro rfl
    -- At the parts before the front there is something, and those behind it are shorter than the path.
    rw [hcs] at hw hk
    rcases Nat.lt_or_ge k front.length with hlt | hge
    · rw [List.take_append_of_le_length (Nat.le_of_lt hlt)] at hw
      have hfront₁ := hgrows.walk_front hfront hq
      rw [← List.take_append_drop k front, List.drop_eq_getElem_cons hlt] at hfront₁
      exact node?_ne_none_of_walk hfront₁ hw hr
    · have hw := walk_true_of_ok hw (by simp [hr])
      rw [List.take_append, List.take_of_length_le hge,
        walk_append_of_ok (hgrows.walk_front hfront hq) (.inr rfl)] at hw
      have hmem (c : Component) (hc : c ∈ back.take (k - front.length)) : c ∈ back := List.mem_of_mem_take hc
      rcases hgrows.walk_of_names true m hq fun c hc => hnames c (hmem c hc) with he | he
      · rw [he] at hw
        cases hw
      · rw [he] at hw
        have hends := List.append_cancel_left (congrArg Prod.fst (Except.ok.inj hw))
        have hlen := congrArg List.length hends
        rw [length_names hplain, length_names fun c hc => hplain c (hmem c hc), List.length_take] at hlen
        rw [List.length_append] at hk
        omega

include hcs hback hfront hq hnames in
theorem Grown.read_eq_notFound (hp : path.isEmpty = false ∧ FileTree.pathFault? path = none) (h : Grown path d d') :
    d'.read path = .error .notFound := by
  have hend := h.node_end hcs hback hfront hq hnames
  rw [read_eq hp.1 hp.2, hcs, walk_append_of_ok (h.grows.walk_front hfront hq) (.inr rfl)]
  rcases h.grows.walk_of_names true m hq hnames with hw | hw <;> simp [hw, hend]

end Missing

/-- What is read on a path stays when directories are made before its end, if something is there or the path goes
straight on. -/
theorem Grown.read_eq (h : Grown path d d') (hpath : d.read path ≠ .error .notFound ∨ d.Straight path) :
    d'.read path = d.read path := by
  by_cases hread : d.read path = .error .notFound
  · have hstraight := hpath.resolve_left fun hne => hne hread
    by_cases hp : path.isEmpty = false ∧ FileTree.pathFault? path = none
    · rcases h.cases_head with rfl | ⟨d₁, ⟨n, hn, q, m, hw, hq, -⟩, -⟩
      · rfl
      · rw [hread]
        exact h.read_eq_notFound (List.take_append_drop n _).symm (by simpa using hn) hw hq
          (hstraight _ _ q m (List.take_append_drop n _).symm hw hq) hp
    · exact read_eq_of_wrong hp
  · exact h.grows.read_eq hread

/-- On the way to a file no directory can be made. -/
theorem Grown.eq_of_read (h : Grown path d d') (hr : d.read path = .ok text) : d' = d := by
  rcases h.cases_head with rfl | ⟨d₁, ⟨n, hn, q, m, hw, hq, -⟩, -⟩
  · rfl
  · obtain ⟨r, number, hl, -⟩ := read_eq_ok.mp hr
    obtain ⟨-, -, ⟨k, hwalk⟩, -⟩ := locate_eq_ok.mp hl
    rw [← List.take_append_drop n (Path.components path), List.drop_eq_getElem_cons hn] at hwalk
    exact absurd hq (node?_ne_none_of_walk hwalk hw)

/-! ### Disks that change at one place -/

/-- A place bears nothing, or a file that no other place bears. -/
def Loose (d : Disk) (p : Place) : Prop :=
  d.node? p = none ∨ ∃ number, d.node? p = some (.file number) ∧ ∀ q, d.node? q = some (.file number) → q = p

theorem Loose.not_directory (h : d.Loose p) : d.node? p ≠ some .directory := by
  rcases h with h | ⟨number, h, -⟩ <;> simp [h]

theorem Loose.not_link (h : d.Loose p) (path : String) : d.node? p ≠ some (.link path) := by
  rcases h with h | ⟨number, h, -⟩ <;> simp [h]

/-- Nothing changes but what is at one place, which is nothing or a file of its own before and afterwards. -/
structure SameOff (place : Place) (d d' : Disk) : Prop where
  here : d'.here = d.here
  others : ∀ p, p ≠ place → SameAt d d' p
  before : d.Loose place
  after : d'.Loose place

namespace SameOff

theorem refl (h : d.Loose place) : SameOff place d d := ⟨rfl, fun p _ => .refl d p, h, h⟩

theorem trans (h : SameOff place d d') (h' : SameOff place d' d'') : SameOff place d d'' :=
  ⟨h'.here.trans h.here, fun p hp => (h.others p hp).trans (h'.others p hp), h.before, h'.after⟩

theorem sameWays (h : SameOff place d d') : SameWays d d' := by
  refine ⟨h.here, fun p => ?_, fun p path => ?_⟩
  · by_cases hp : p = place
    · subst hp
      exact iff_of_false h.after.not_directory h.before.not_directory
    · rw [(h.others p hp).node]
  · by_cases hp : p = place
    · subst hp
      exact iff_of_false (h.after.not_link path) (h.before.not_link path)
    · rw [(h.others p hp).node]

end SameOff

/-- A file that is put where nothing else is found is put there, and nothing else changes. -/
theorem Puts.sameOff (h : Puts path text d d') (hl : d.locate false path = .ok place) (hloose : d.Loose place) :
    SameOff place d d' ∧ ∃ number, d'.node? place = some (.file number) ∧ d'.text number = text := by
  obtain ⟨q, number, hq, h⟩ := h
  obtain rfl : q = place := Except.ok.inj (hq.symm.trans (locate_true_of_false hl hloose.not_link))
  rcases h with ⟨hfile, hnode, htext, hhere⟩ | ⟨hnone, hnew, hnode, htext, hhere⟩
  · -- No other place bears the file that gets another text.
    have hown (p : Place) (hp : d.node? p = some (.file number)) : p = q := by
      rcases hloose with hn | ⟨number', hn, hown⟩
      · simp [hfile] at hn
      · obtain rfl : number = number' := by simpa using hfile.symm.trans hn
        exact hown p hp
    refine ⟨⟨hhere, fun p hp => ⟨by rw [hnode], fun j hj => ?_⟩, hloose, .inr ⟨number, by rw [hnode, hfile], ?_⟩⟩,
      number, by rw [hnode, hfile], by simp [htext]⟩
    · rw [htext, Function.update_of_ne]
      rintro rfl
      exact hp (hown p hj)
    · rwa [hnode]
  · have hq' : d'.node? q = some (.file number) := by simp [hnode]
    refine ⟨⟨hhere, fun p hp => ⟨by rw [hnode, Function.update_of_ne hp], fun j hj => ?_⟩, hloose,
      .inr ⟨number, hq', fun p hp => ?_⟩⟩, number, hq', by simp [htext]⟩
    · rw [htext, Function.update_of_ne]
      rintro rfl
      exact hnew p hj
    · by_contra hne
      rw [hnode, Function.update_of_ne hne] at hp
      exact hnew p hp

/-- A file is put where what is found can be written to. -/
theorem Puts.exists_locate (h : Puts path text d d') :
    ∃ q, d.locate false path = .ok q ∧ d.node? q ≠ some .directory := by
  obtain ⟨q, number, hq, h⟩ := h
  rcases locate_false_of_true hq with hq | ⟨r, path', hr, hlink⟩
  · refine ⟨q, hq, ?_⟩
    rcases h with ⟨hfile, -⟩ | ⟨hnone, -⟩
    · simp [hfile]
    · simp [hnone]
  · exact ⟨r, hr, by simp [hlink]⟩

theorem Removes.sameOff (h : Removes path d d') (hl : d.locate false path = .ok place) (hloose : d.Loose place) :
    SameOff place d d' := by
  obtain ⟨q, n, hq, -, -, hnode, htext, hhere⟩ := h
  obtain rfl : q = place := Except.ok.inj (hq.symm.trans hl)
  exact ⟨hhere, fun p hp => ⟨by rw [hnode, Function.update_of_ne hp], fun j _ => by rw [htext]⟩, hloose,
    .inl (by simp [hnode])⟩

theorem Removes.exists_locate (h : Removes path d d') :
    ∃ q, d.locate false path = .ok q ∧ d.node? q ≠ some .directory := by
  obtain ⟨q, n, hq, hn, hne, -⟩ := h
  exact ⟨q, hq, by simpa [hn] using hne⟩

/-- A file of its own that is moved is at its new place and gone from its old one. -/
theorem Moves.node {source target : String} {number : Nat} (h : Moves source target d d')
    (hl : d.locate false source = .ok place) (hloose : d.Loose place) (hfile : d.node? place = some (.file number))
    (hne : d.locate false target ≠ .ok place) : ∃ b, d.locate false target = .ok b ∧
      FileTree.asksForDirectory target = false ∧ d.node? b ≠ some .directory ∧
      d'.node? = Function.update (Function.update d.node? place none) b (some (.file number)) ∧
      d'.text = d.text ∧ d'.here = d.here := by
  obtain ⟨a, b, n, ha, hb, hasks, hn, -, hdir, h⟩ := h
  obtain rfl : a = place := Except.ok.inj (ha.symm.trans hl)
  obtain rfl : n = .file number := Option.some.inj (hn.symm.trans hfile)
  refine ⟨b, hb, hasks, hdir, ?_⟩
  rcases h with ⟨number', hnumber, hsame, -⟩ | ⟨-, h⟩
  · -- The target is no other name of the file.
    cases hnumber
    rcases hloose with hnone | ⟨number', hn', hown⟩
    · simp [hfile] at hnone
    · obtain rfl : number = number' := by simpa using hfile.symm.trans hn'
      exact absurd (hown b hsame ▸ hb) hne
  · exact h

end WorkWaves.Disk
