import Mathlib.Data.List.Induction
import Mathlib.Tactic.ByContra
import WorkWaves.Files.Disk

/-!
# Walks over disks

A walk along some components and then others is one along all of them (`walk_append`). One that leads somewhere only
needs the directories and links on the way (`SameWays.walk_eq_ok`), and every walk goes as it went where the places that
it comes to bear what they bore (`walk_congr`).
-/

namespace WorkWaves.Disk

variable {d d' d'' : Disk} {p q r place : Place} {c : Component} {cs front back : List Component} {last : Bool}
  {links m n : Nat} {e : FileFault} {path text : String} {w : Place × Nat}

/-! ### Places -/

theorem directory_above (h : d.node? q = some .directory) (hpq : p <+: q) : d.node? p = some .directory := by
  induction q using List.reverseRecOn with
  | nil => rw [List.prefix_nil.mp hpq, d.root]
  | append_singleton q s ih =>
    rcases List.prefix_concat_iff.mp hpq with rfl | hpq
    · exact h
    · exact ih (d.rooted q s (by simp [h])) hpq

/-- Below what is no directory there is nothing. -/
theorem node?_eq_none_below (h : d.node? p ≠ some .directory) (hpq : p <+: q) (hne : q ≠ p) : d.node? q = none := by
  induction q using List.reverseRecOn with
  | nil => exact absurd (List.prefix_nil.mp hpq).symm hne
  | append_singleton q s ih =>
    by_contra hq
    have hdir := d.rooted q s hq
    have hpre := (List.prefix_concat_iff.mp hpq).resolve_left (Ne.symm hne)
    exact h (directory_above hdir hpre)

theorem step_congr (h : d'.node? p = d.node? p) (c : Component) : d'.step p c = d.step p c := by
  unfold step
  rw [h]

theorem step_of_none (h : d.node? p = none) (c : Component) : d.step p c = .error .notFound := by
  unfold step
  rw [h]

/-- A step from a directory leads to a directory, or to a name in it. -/
theorem step_eq_ok (h : d.step p c = .ok q) : d.node? p = some .directory ∧
    (d.node? q = some .directory ∨ ∃ s, c = .name s ∧ q = p ++ [s]) := by
  unfold step at h
  split at h
  · cases h
  · next hp =>
    refine ⟨hp, ?_⟩
    cases c with
    | root =>
      cases h
      exact .inl d.root
    | here =>
      cases h
      exact .inl hp
    | up =>
      cases h
      exact .inl (directory_above hp (List.dropLast_prefix p))
    | name s =>
      dsimp only at h
      split at h
      · exact .inr ⟨s, rfl, (Except.ok.inj h).symm⟩
      · cases h
  · cases h

theorem step_name (h : d.node? p = some .directory) {s : String} (hs : s.utf8ByteSize ≤ FileTree.longestName) :
    d.step p (.name s) = .ok (p ++ [s]) := by
  unfold step
  rw [h]
  exact if_pos hs

theorem eq_of_step_name {s : String} (h : d.step p (.name s) = .ok q) : q = p ++ [s] := by
  unfold step at h
  split at h
  · cases h
  · dsimp only at h
    split at h
    · exact (Except.ok.inj h).symm
    · cases h
  · cases h

/-! ### Walks -/

@[simp] theorem walk_nil : d.walk last links p [] = .ok (p, links) := by
  cases links <;> rfl

theorem walk_cons : d.walk last links p (c :: cs) =
    match d.step p c with
    | .error e => .error e
    | .ok q =>
      match d.node? q with
      | some (.link path) =>
        if cs.isEmpty && !last then .ok (q, links)
        else
          match links with
          | 0 => .error .tooManyLinks
          | links + 1 => d.walk last links p (turns path ++ cs)
      | _ => d.walk last links q cs := by
  cases links <;> rfl

theorem walk_stuck (hs : d.step p c = .error e) : d.walk last links p (c :: cs) = .error e := by
  rw [walk_cons, hs]

theorem walk_on (hs : d.step p c = .ok q) (hq : ∀ path, d.node? q ≠ some (.link path)) :
    d.walk last links p (c :: cs) = d.walk last links q cs := by
  rw [walk_cons, hs]
  dsimp only
  split
  · next path hpath => exact absurd hpath (hq path)
  · rfl

theorem walk_stay (hs : d.step p c = .ok q) (hq : d.node? q = some (.link path)) :
    d.walk false links p [c] = .ok (q, links) := by
  rw [walk_cons, hs]
  dsimp only
  rw [hq]
  rfl

theorem walk_lost (h : cs ≠ [] ∨ last = true) (hs : d.step p c = .ok q) (hq : d.node? q = some (.link path)) :
    d.walk last 0 p (c :: cs) = .error .tooManyLinks := by
  have hgo : (cs.isEmpty && !last) = false := by rcases h with h | rfl <;> simp [*]
  rw [walk_cons, hs]
  simp only [hq, hgo, Bool.false_eq_true, if_false]

theorem walk_turn (h : cs ≠ [] ∨ last = true) (hs : d.step p c = .ok q) (hq : d.node? q = some (.link path)) :
    d.walk last (links + 1) p (c :: cs) = d.walk last links p (turns path ++ cs) := by
  have hgo : (cs.isEmpty && !last) = false := by rcases h with h | rfl <;> simp [*]
  rw [walk_cons, hs]
  simp only [hq, hgo, Bool.false_eq_true, if_false]

/-- How a walk goes: it is at its end, gets stuck, goes on, stays at a link, or turns off there. -/
theorem walk_induct (d : Disk) (last : Bool) {motive : Nat → Place → List Component → Prop}
    (nil : ∀ links p, motive links p [])
    (stuck : ∀ links p c cs e, d.step p c = .error e → motive links p (c :: cs))
    (on : ∀ links p c cs q, d.step p c = .ok q → (∀ path, d.node? q ≠ some (.link path)) → motive links q cs →
      motive links p (c :: cs))
    (stay : ∀ links p c q path, last = false → d.step p c = .ok q → d.node? q = some (.link path) → motive links p [c])
    (lost : ∀ p c cs q path, cs ≠ [] ∨ last = true → d.step p c = .ok q → d.node? q = some (.link path) →
      motive 0 p (c :: cs))
    (turn : ∀ links p c cs q path, cs ≠ [] ∨ last = true → d.step p c = .ok q → d.node? q = some (.link path) →
      motive links p (turns path ++ cs) → motive (links + 1) p (c :: cs))
    (links : Nat) (p : Place) (cs : List Component) : motive links p cs := by
  induction links generalizing p cs with
  | zero =>
    induction cs generalizing p with
    | nil => exact nil 0 p
    | cons c cs ih =>
      cases hs : d.step p c with
      | error e => exact stuck 0 p c cs e hs
      | ok q =>
        by_cases hq : ∃ path, d.node? q = some (.link path)
        · obtain ⟨path, hq⟩ := hq
          by_cases h : cs ≠ [] ∨ last = true
          · exact lost p c cs q path h hs hq
          · obtain ⟨rfl, rfl⟩ : cs = [] ∧ last = false := by simpa using h
            exact stay 0 p c q path rfl hs hq
        · exact on 0 p c cs q hs (not_exists.mp hq) (ih q)
  | succ links ih' =>
    induction cs generalizing p with
    | nil => exact nil (links + 1) p
    | cons c cs ih =>
      cases hs : d.step p c with
      | error e => exact stuck (links + 1) p c cs e hs
      | ok q =>
        by_cases hq : ∃ path, d.node? q = some (.link path)
        · obtain ⟨path, hq⟩ := hq
          by_cases h : cs ≠ [] ∨ last = true
          · exact turn links p c cs q path h hs hq (ih' p _)
          · obtain ⟨rfl, rfl⟩ : cs = [] ∧ last = false := by simpa using h
            exact stay (links + 1) p c q path rfl hs hq
        · exact on (links + 1) p c cs q hs (not_exists.mp hq) (ih q)

/-- A walk leads somewhere, where so many links are left. -/
inductive Reaches (d : Disk) (last : Bool) : Nat → Place → List Component → Place → Nat → Prop
  | nil {links : Nat} {p : Place} : Reaches d last links p [] p links
  | on {links m : Nat} {p q r : Place} {c : Component} {cs : List Component} (hs : d.step p c = .ok q)
      (hq : ∀ path, d.node? q ≠ some (.link path)) (h : Reaches d last links q cs r m) :
      Reaches d last links p (c :: cs) r m
  | stay {links : Nat} {p q : Place} {c : Component} {path : String} (hlast : last = false) (hs : d.step p c = .ok q)
      (hq : d.node? q = some (.link path)) : Reaches d last links p [c] q links
  | turn {links m : Nat} {p q r : Place} {c : Component} {cs : List Component} {path : String}
      (hgo : cs ≠ [] ∨ last = true) (hs : d.step p c = .ok q) (hq : d.node? q = some (.link path))
      (h : Reaches d last links p (turns path ++ cs) r m) : Reaches d last (links + 1) p (c :: cs) r m

theorem reaches_of_walk (hw : d.walk last links p cs = .ok (q, m)) : d.Reaches last links p cs q m := by
  induction links, p, cs using d.walk_induct last with
  | nil links p =>
    rw [walk_nil] at hw
    cases hw
    exact .nil
  | stuck links p c cs e hs =>
    rw [walk_stuck hs] at hw
    cases hw
  | on links p c cs r hs hr ih =>
    rw [walk_on hs hr] at hw
    exact .on hs hr (ih hw)
  | stay links p c r path hlast hs hr =>
    subst hlast
    rw [walk_stay hs hr] at hw
    cases hw
    exact .stay rfl hs hr
  | lost p c cs r path hgo hs hr =>
    rw [walk_lost hgo hs hr] at hw
    cases hw
  | turn links p c cs r path hgo hs hr ih =>
    rw [walk_turn hgo hs hr] at hw
    exact .turn hgo hs hr (ih hw)

theorem Reaches.walk_eq (h : d.Reaches last links p cs q m) : d.walk last links p cs = .ok (q, m) := by
  induction h with
  | nil => exact walk_nil
  | on hs hq _ ih => rw [walk_on hs hq, ih]
  | stay hlast hs hq =>
    subst hlast
    exact walk_stay hs hq
  | turn hgo hs hq _ ih => rw [walk_turn hgo hs hq, ih]

/-- A walk goes on from where the first part of it leads, with the links that are left. -/
theorem walk_append (h : back ≠ [] ∨ last = true) : d.walk last links p (front ++ back) =
    (d.walk true links p front).bind fun r => d.walk last r.2 r.1 back := by
  have hgo (cs : List Component) : cs ++ back ≠ [] ∨ last = true := h.imp_left fun hb => by simp [hb]
  induction links, p, front using d.walk_induct true with
  | nil links p => rw [walk_nil]; rfl
  | stuck links p c cs e hs => rw [List.cons_append, walk_stuck hs, walk_stuck hs]; rfl
  | on links p c cs q hs hq ih => rw [List.cons_append, walk_on hs hq, walk_on hs hq, ih]
  | stay links p c q path hlast => cases hlast
  | lost p c cs q path _ hs hq => rw [List.cons_append, walk_lost (hgo cs) hs hq, walk_lost (.inr rfl) hs hq]; rfl
  | turn links p c cs q path _ hs hq ih =>
    rw [List.cons_append, walk_turn (hgo cs) hs hq, walk_turn (.inr rfl) hs hq, ← List.append_assoc, ih]

theorem walk_append_of_ok (hfront : d.walk true links p front = .ok (q, m)) (h : back ≠ [] ∨ last = true) :
    d.walk last links p (front ++ back) = d.walk last m q back := by
  rw [walk_append h, hfront]
  rfl

theorem walk_append_eq_ok (h : back ≠ [] ∨ last = true) : d.walk last links p (front ++ back) = .ok w ↔
    ∃ q m, d.walk true links p front = .ok (q, m) ∧ d.walk last m q back = .ok w := by
  rw [walk_append h]
  cases d.walk true links p front with
  | error e => simp [Except.bind]
  | ok r =>
    obtain ⟨q, m⟩ := r
    simp [Except.bind]

theorem walk_singleton : d.walk false links p [c] = (d.step p c).map fun q => (q, links) := by
  cases hs : d.step p c with
  | error e => rw [walk_stuck hs]; rfl
  | ok q =>
    by_cases hq : ∃ path, d.node? q = some (.link path)
    · obtain ⟨path, hq⟩ := hq
      rw [walk_stay hs hq]
      rfl
    · rw [walk_on hs (not_exists.mp hq), walk_nil]
      rfl

theorem walk_concat_eq_ok : d.walk false links p (front ++ [c]) = .ok (q, n) ↔
    ∃ r, d.walk true links p front = .ok (r, n) ∧ d.step r c = .ok q := by
  rw [walk_append_eq_ok (.inl (by simp))]
  simp only [walk_singleton]
  constructor
  · rintro ⟨r, m, hr, hs⟩
    cases hstep : d.step r c with
    | error e => simp [hstep, Except.map] at hs
    | ok r' =>
      simp only [hstep, Except.map, Except.ok.injEq, Prod.mk.injEq] at hs
      obtain ⟨rfl, rfl⟩ := hs
      exact ⟨r, hr, hstep⟩
  · rintro ⟨r, hr, hs⟩
    exact ⟨r, n, hr, by rw [hs]; rfl⟩

/-- Whether a link at the end is followed makes no difference where there is none. -/
theorem walk_true_eq (d : Disk) (links : Nat) (p : Place) (cs : List Component) :
    d.walk true links p cs = d.walk false links p cs ∨
      ∃ q m path, d.walk false links p cs = .ok (q, m) ∧ d.node? q = some (.link path) := by
  induction links, p, cs using d.walk_induct false with
  | nil links p => simp
  | stuck links p c cs e hs => exact .inl (by rw [walk_stuck hs, walk_stuck hs])
  | on links p c cs q hs hq ih => rwa [walk_on hs hq, walk_on hs hq]
  | stay links p c q path _ hs hq => exact .inr ⟨q, links, path, walk_stay hs hq, hq⟩
  | lost p c cs q path h hs hq => exact .inl (by rw [walk_lost (.inr rfl) hs hq, walk_lost h hs hq])
  | turn links p c cs q path h hs hq ih => rwa [walk_turn (.inr rfl) hs hq, walk_turn h hs hq]

theorem walk_true_of_ok (hw : d.walk false links p cs = .ok (q, m)) (hq : ∀ path, d.node? q ≠ some (.link path)) :
    d.walk true links p cs = .ok (q, m) := by
  rcases d.walk_true_eq links p cs with h | ⟨_, _, path, h, hlink⟩
  · exact h.trans hw
  · obtain rfl : q = _ := congrArg Prod.fst (Except.ok.inj (hw.symm.trans h))
    exact absurd hlink (hq path)

/-- A walk that leads on ends its first part at a directory. -/
theorem directory_of_walk (h : d.walk last links p (front ++ c :: back) = .ok w) :
    ∃ q m, d.walk true links p front = .ok (q, m) ∧ d.node? q = some .directory := by
  obtain ⟨q, m, hfront, hback⟩ := (walk_append_eq_ok (.inl (by simp))).mp h
  refine ⟨q, m, hfront, ?_⟩
  cases hs : d.step q c with
  | error e =>
    rw [walk_stuck hs] at hback
    cases hback
  | ok _ => exact (step_eq_ok hs).1

/-- Where a walk leads on there is something. -/
theorem node?_ne_none_of_walk (h : d.walk last links p (front ++ c :: back) = .ok w)
    (hq : d.walk false links p front = .ok (q, m)) : d.node? q ≠ none := by
  intro hnone
  obtain ⟨r, m', hr, hdir⟩ := directory_of_walk h
  rw [walk_true_of_ok hq (by simp [hnone])] at hr
  cases hr
  simp [hnone] at hdir

/-! ### What is found on a path -/

theorem locate_eq_ok : d.locate last path = .ok q ↔ path.isEmpty = false ∧ FileTree.pathFault? path = none ∧
    (∃ m, d.walk last maxLinks d.here (Path.components path) = .ok (q, m)) ∧
      (FileTree.asksForDirectory path = true → ∀ number, d.node? q ≠ some (.file number)) := by
  unfold locate
  cases path.isEmpty with
  | true => simp
  | false =>
    cases FileTree.pathFault? path with
    | some e => simp
    | none =>
      cases d.walk last maxLinks d.here (Path.components path) with
      | error e => simp
      | ok r =>
        obtain ⟨r, m⟩ := r
        simp only [Bool.false_eq_true, if_false, true_and, Except.ok.injEq, Prod.mk.injEq]
        constructor
        · intro h
          split at h
          · split at h
            · cases h
            · next hasks =>
              cases h
              exact ⟨⟨m, rfl, rfl⟩, fun ha => absurd ha hasks⟩
          · next hfile =>
            cases h
            exact ⟨⟨m, rfl, rfl⟩, fun _ => hfile⟩
        · rintro ⟨⟨_, rfl, rfl⟩, hfile⟩
          split
          · next number hnumber => rw [if_neg fun ha => hfile ha number hnumber]
          · rfl

theorem locate_true_of_false (h : d.locate false path = .ok q) (hq : ∀ path, d.node? q ≠ some (.link path)) :
    d.locate true path = .ok q := by
  obtain ⟨he, hf, ⟨m, hw⟩, hfile⟩ := locate_eq_ok.mp h
  exact locate_eq_ok.mpr ⟨he, hf, ⟨m, walk_true_of_ok hw hq⟩, hfile⟩

/-- A path leads to the same place if its end is not followed, or to a link. -/
theorem locate_false_of_true (h : d.locate true path = .ok q) : d.locate false path = .ok q ∨
    ∃ r path', d.locate false path = .ok r ∧ d.node? r = some (.link path') := by
  obtain ⟨he, hf, ⟨m, hw⟩, hfile⟩ := locate_eq_ok.mp h
  rcases d.walk_true_eq maxLinks d.here (Path.components path) with hsame | ⟨r, m', path', hr, hlink⟩
  · exact .inl (locate_eq_ok.mpr ⟨he, hf, ⟨m, hsame.symm.trans hw⟩, hfile⟩)
  · exact .inr ⟨r, path', locate_eq_ok.mpr ⟨he, hf, ⟨m', hr⟩, by simp [hlink]⟩, hlink⟩

theorem read_eq_ok : d.read path = .ok text ↔
    ∃ q number, d.locate true path = .ok q ∧ d.node? q = some (.file number) ∧ d.text number = text := by
  unfold read
  cases d.locate true path with
  | error e => simp
  | ok q =>
    dsimp only
    split <;> simp_all

/-- A place bears what it bore, with the same text. -/
structure SameAt (d d' : Disk) (p : Place) : Prop where
  node : d'.node? p = d.node? p
  text : ∀ number, d.node? p = some (.file number) → d'.text number = d.text number

theorem SameAt.refl (d : Disk) (p : Place) : SameAt d d p := ⟨rfl, fun _ _ => rfl⟩

theorem SameAt.trans (h : SameAt d d' p) (h' : SameAt d' d'' p) : SameAt d d'' p :=
  ⟨h'.node.trans h.node, fun number hp => (h'.text number (h.node.trans hp)).trans (h.text number hp)⟩

/-- What is read on a path is at the end of its walk. -/
theorem read_eq (he : path.isEmpty = false) (hf : FileTree.pathFault? path = none) :
    d.read path = match d.walk true maxLinks d.here (Path.components path) with
      | .error e => .error e
      | .ok (q, _) => match d.node? q with
        | some (.file number) => if FileTree.asksForDirectory path then .error .notDirectory else .ok (d.text number)
        | some .directory => .error .isDirectory
        | some (.link _) => .error .tooManyLinks
        | none => .error .notFound := by
  unfold read locate
  rw [he, hf]
  cases d.walk true maxLinks d.here (Path.components path) with
  | error e => rfl
  | ok r =>
    obtain ⟨q, m⟩ := r
    simp only [Bool.false_eq_true, if_false]
    cases hq : d.node? q with
    | none => simp [hq]
    | some n =>
      cases n with
      | directory | link path => simp [hq]
      | file number => cases FileTree.asksForDirectory path <;> simp [hq]

/-- What is wrong with a path by itself is wrong with it on all disks. -/
theorem read_eq_of_wrong (h : ¬ (path.isEmpty = false ∧ FileTree.pathFault? path = none)) :
    d'.read path = d.read path := by
  unfold read locate
  cases he : path.isEmpty with
  | true => rfl
  | false =>
    cases hf : FileTree.pathFault? path with
    | some e => rfl
    | none => exact absurd ⟨he, hf⟩ h

theorem read_congr (hh : d'.walk true maxLinks d'.here (Path.components path) =
      d.walk true maxLinks d.here (Path.components path))
    (hq : ∀ q m, d.walk true maxLinks d.here (Path.components path) = .ok (q, m) → SameAt d d' q) :
    d'.read path = d.read path := by
  by_cases hp : path.isEmpty = false ∧ FileTree.pathFault? path = none
  · rw [read_eq hp.1 hp.2, read_eq hp.1 hp.2, hh]
    split
    · rfl
    · next q m hw =>
      have hsame := hq q m hw
      rw [hsame.node]
      split
      · next number hnumber => rw [hsame.text number hnumber]
      · rfl
      · rfl
      · rfl
  · exact read_eq_of_wrong hp

/-! ### Disks that differ where no walk goes on -/

/-- Two disks with the same directories and links. -/
structure SameWays (d d' : Disk) : Prop where
  here : d'.here = d.here
  directory : ∀ p, d'.node? p = some .directory ↔ d.node? p = some .directory
  link : ∀ p path, d'.node? p = some (.link path) ↔ d.node? p = some (.link path)

namespace SameWays

theorem symm (h : SameWays d d') : SameWays d' d :=
  ⟨h.here.symm, fun p => (h.directory p).symm, fun p path => (h.link p path).symm⟩

theorem step_eq (h : SameWays d d') (hs : d.step p c = .ok q) : d'.step p c = .ok q := by
  have hdir := (step_eq_ok hs).1
  rw [step_congr (((h.directory p).mpr hdir).trans hdir.symm), hs]

theorem reaches (h : SameWays d d') (hr : d.Reaches last links p cs q m) : d'.Reaches last links p cs q m := by
  induction hr with
  | nil => exact .nil
  | on hs hq _ ih => exact .on (h.step_eq hs) (fun path => mt (h.link _ path).mp (hq path)) ih
  | stay hlast hs hq => exact .stay hlast (h.step_eq hs) ((h.link _ _).mpr hq)
  | turn hgo hs hq _ ih => exact .turn hgo (h.step_eq hs) ((h.link _ _).mpr hq) ih

theorem walk_eq_ok (h : SameWays d d') (hw : d.walk last links p cs = .ok (q, m)) :
    d'.walk last links p cs = .ok (q, m) :=
  (h.reaches (reaches_of_walk hw)).walk_eq

theorem locate_eq_ok (h : SameWays d d') (hl : d.locate last path = .ok q)
    (ha : FileTree.asksForDirectory path = false) : d'.locate last path = .ok q := by
  obtain ⟨he, hf, ⟨m, hw⟩, -⟩ := Disk.locate_eq_ok.mp hl
  exact Disk.locate_eq_ok.mpr ⟨he, hf, ⟨m, h.here ▸ h.walk_eq_ok hw⟩, by simp [ha]⟩

end SameWays

/-! ### Places that a walk comes to -/

/-- A walk along the components from a place, also through links, comes to another place. -/
inductive Meets (d : Disk) : Place → List Component → Place → Prop
  | next {p q : Place} {c : Component} {cs : List Component} (hs : d.step p c = .ok q) : Meets d p (c :: cs) q
  | on {p q place : Place} {c : Component} {cs : List Component} (hs : d.step p c = .ok q)
      (hq : ∀ path, d.node? q ≠ some (.link path)) (h : Meets d q cs place) : Meets d p (c :: cs) place
  | turn {p q place : Place} {c : Component} {cs : List Component} {path : String} (hs : d.step p c = .ok q)
      (hq : d.node? q = some (.link path)) (h : Meets d p (turns path ++ cs) place) : Meets d p (c :: cs) place

theorem meets_on (hs : d.step p c = .ok q) (hq : ∀ path, d.node? q ≠ some (.link path)) :
    d.Meets p (c :: cs) place ↔ place = q ∨ d.Meets q cs place := by
  constructor
  · intro h
    cases h with
    | next hs' => exact .inl (Except.ok.inj (hs'.symm.trans hs))
    | on hs' _ h =>
      rw [hs] at hs'
      cases hs'
      exact .inr h
    | turn hs' hq' h =>
      rw [hs] at hs'
      cases hs'
      exact absurd hq' (hq _)
  · rintro (rfl | h)
    · exact .next hs
    · exact .on hs hq h

theorem meets_turn (hs : d.step p c = .ok q) (hq : d.node? q = some (.link path)) :
    d.Meets p (c :: cs) place ↔ place = q ∨ d.Meets p (turns path ++ cs) place := by
  constructor
  · intro h
    cases h with
    | next hs' => exact .inl (Except.ok.inj (hs'.symm.trans hs))
    | on hs' hq' h =>
      rw [hs] at hs'
      cases hs'
      exact absurd hq (hq' _)
    | turn hs' hq' h =>
      rw [hs] at hs'
      cases hs'
      rw [hq] at hq'
      cases hq'
      exact .inr h
  · rintro (rfl | h)
    · exact .next hs
    · exact .turn hs hq h

/-- A walk depends only on what is at its start and where it comes to. -/
theorem walk_congr (hp : d'.node? p = d.node? p) (h : ∀ q, d.Meets p cs q → d'.node? q = d.node? q) :
    d'.walk last links p cs = d.walk last links p cs := by
  induction links, p, cs using d.walk_induct last with
  | nil links p => rw [walk_nil, walk_nil]
  | stuck links p c cs e hs => rw [walk_stuck hs, walk_stuck ((step_congr hp c).trans hs)]
  | on links p c cs q hs hq ih =>
    have hq' := h q (.next hs)
    rw [walk_on hs hq, walk_on ((step_congr hp c).trans hs) (by rwa [hq'])]
    exact ih hq' fun place hm => h place (.on hs hq hm)
  | stay links p c q path hlast hs hq =>
    subst hlast
    rw [walk_stay hs hq, walk_stay ((step_congr hp c).trans hs) ((h q (.next hs)).trans hq)]
  | lost p c cs q path hgo hs hq =>
    rw [walk_lost hgo hs hq, walk_lost hgo ((step_congr hp c).trans hs) ((h q (.next hs)).trans hq)]
  | turn links p c cs q path hgo hs hq ih =>
    rw [walk_turn hgo hs hq, walk_turn hgo ((step_congr hp c).trans hs) ((h q (.next hs)).trans hq)]
    exact ih hp fun place hm => h place (.turn hs hq hm)

@[simp] theorem walk_fill : (d.fill n text).walk last links p cs = d.walk last links p cs :=
  walk_congr rfl fun _ _ => rfl

@[simp] theorem locate_fill : (d.fill n text).locate last path = d.locate last path := by
  unfold locate
  rw [walk_fill]
  rfl

theorem SameWays.meets (h : SameWays d d') (hm : d.Meets p cs place) : d'.Meets p cs place := by
  induction hm with
  | next hs => exact .next (h.step_eq hs)
  | on hs hq _ ih => exact .on (h.step_eq hs) (fun path => mt (h.link _ path).mp (hq path)) ih
  | turn hs hq _ ih => exact .turn (h.step_eq hs) ((h.link _ _).mpr hq) ih

theorem Meets.append_right (h : d.Meets p front place) (back : List Component) : d.Meets p (front ++ back) place := by
  induction h with
  | next hs => exact .next hs
  | on hs hq _ ih => exact .on hs hq ih
  | turn hs hq _ ih =>
    rw [List.append_assoc] at ih
    exact .turn hs hq ih

/-- A walk ends where it came to last. -/
theorem Reaches.meets (h : d.Reaches last links p cs q m) : q = p ∨ d.Meets p cs q := by
  induction h with
  | nil => exact .inl rfl
  | on hs hq _ ih =>
    rcases ih with rfl | hm
    · exact .inr (.next hs)
    · exact .inr (.on hs hq hm)
  | stay _ hs _ => exact .inr (.next hs)
  | turn _ hs hq _ ih => exact ih.imp_right (.turn hs hq)

/-- A walk in two parts comes to a place in the first, or in the second. -/
theorem Reaches.meets_append (hfront : d.Reaches true links p front q m) (h : d.Meets p (front ++ back) place) :
    d.Meets p front place ∨ d.Meets q back place := by
  induction hfront with
  | nil => exact .inr h
  | on hs hq _ ih =>
    rw [List.cons_append, meets_on hs hq] at h
    rw [meets_on hs hq, or_assoc]
    exact h.imp_right ih
  | stay hlast => cases hlast
  | turn _ hs hq _ ih =>
    rw [List.cons_append, meets_turn hs hq, ← List.append_assoc] at h
    rw [meets_turn hs hq, or_assoc]
    exact h.imp_right ih

/-- A walk to a directory starts at one. -/
theorem Reaches.directory (h : d.Reaches last links p cs q m) (hq : d.node? q = some .directory) :
    d.node? p = some .directory := by
  cases h with
  | nil => exact hq
  | on hs _ _ | stay _ hs _ | turn _ hs _ _ => exact (step_eq_ok hs).1

/-- A walk that leads to a directory comes to directories and links only. -/
theorem Reaches.way_of_meets (h : d.Reaches last links p cs q m) (hq : d.node? q = some .directory)
    (hm : d.Meets p cs place) : d.node? place = some .directory ∨ ∃ path, d.node? place = some (.link path) := by
  induction h with
  | nil => cases hm
  | on hs hr h ih =>
    rcases (meets_on hs hr).mp hm with rfl | hm
    · exact .inl (h.directory hq)
    · exact ih hq hm
  | stay _ _ hr => simp [hr] at hq
  | turn _ hs hr _ ih =>
    rcases (meets_turn hs hr).mp hm with rfl | hm
    · exact .inr ⟨_, hr⟩
    · exact ih hq hm

end WorkWaves.Disk
