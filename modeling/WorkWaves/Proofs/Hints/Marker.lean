import WorkWaves.Proofs.Hints.Named
import WorkWaves.Proofs.Hints.Words

/-!
# What a marker is made of

A marker is a front, a colon and what is announced. Fronts are exactly what stands before the colon (`Front.heading?`,
`exists_front`); one that goes on over the end of a line is a front in the line that ends, or in the one that follows
(`Front.of_lines`). What is announced does not depend on the lines behind it, unless there is no word yet behind the colon
(`announcement_append`, `announcement_of_open`).
-/

namespace WorkWaves.Hints

open WorkWaves.Text

variable {b cs l r u w x : List Char} {c : Char}

def Blanks (l : List Char) : Prop := ∀ c ∈ l, isBlank c = true

def Stars (l : List Char) : Prop := l = [] ∨ l = ['*', '*']

def Plural (l : List Char) : Prop := l = [] ∨ ∃ c, l = [c] ∧ (c = 's' ∨ c = 'S' ∨ c = 'ſ')

def Bullet (l : List Char) : Prop := l = [] ∨ ∃ c d r, l = c :: d :: r ∧ (c = '-' ∨ c = '*') ∧ Blanks (d :: r)

/-- A word that announces a path, in either case. -/
def Word (l : List Char) : Prop := l.map Char.toLower ∈ markerWords

/-- What stands before the colon of a marker. -/
inductive Front : List Char → Prop
  | intro {indent bullet stars word plural stars' gap : List Char} (hindent : Blanks indent) (hbullet : Bullet bullet)
    (hstars : Stars stars) (hword : Word word) (hplural : Plural plural) (hstars' : Stars stars') (hgap : Blanks gap) :
    Front (indent ++ (bullet ++ (stars ++ (word ++ (plural ++ (stars' ++ gap))))))

/-- What stands behind the colon of a marker. -/
def heading? (cs : List Char) : Option (List Char) :=
  (markerWords.findSome? (dropWord · (dropStars (dropBullet (dropBlanks cs))))).bind fun r =>
    match dropBlanks (dropStars (dropPlural r)) with
    | ':' :: r => some r
    | _ => none

theorem marker_eq (before : Option Char) (cs : List Char) : marker before cs =
    if before = none ∨ before = some '\n' then
      (heading? cs).bind fun r => (announcement r).map fun p => (p.1, cs.length - p.2.length)
    else none := by
  unfold marker heading?
  by_cases hb : before = none ∨ before = some '\n'
  · rw [if_pos hb, if_pos hb]
    dsimp only
    cases markerWords.findSome? (dropWord · (dropStars (dropBullet (dropBlanks cs)))) with
    | none => rfl
    | some r =>
      dsimp only [Option.bind_some]
      rcases dropBlanks (dropStars (dropPlural r)) with _ | ⟨c, s⟩
      · rfl
      · by_cases hc : c = ':'
        · rw [hc]
          rfl
        · simp [hc]
  · rw [if_neg hb, if_neg hb]

/-! ### The parts of a front -/

theorem exists_dropBlanks (l : List Char) : ∃ x, Blanks x ∧ l = x ++ dropBlanks l :=
  ⟨l.takeWhile isBlank, fun _ => List.mem_takeWhile_imp, List.takeWhile_append_dropWhile.symm⟩

theorem dropBlanks_append (hx : Blanks x) (hl : ∀ c ∈ l.head?, isBlank c = false) : dropBlanks (x ++ l) = l := by
  unfold dropBlanks
  rw [List.dropWhile_append_of_pos hx, dropWhile_eq_self hl]

theorem exists_dropStars (l : List Char) : ∃ x, Stars x ∧ l = x ++ dropStars l := by
  unfold dropStars
  split
  · exact ⟨['*', '*'], .inr rfl, rfl⟩
  · exact ⟨[], .inl rfl, rfl⟩

theorem dropStars_append (hx : Stars x) (hl : ∀ c ∈ l.head?, c ≠ '*') : dropStars (x ++ l) = l := by
  rcases hx with rfl | rfl
  · rw [List.nil_append]
    unfold dropStars
    split
    · exact absurd rfl (hl '*' rfl)
    · rfl
  · rfl

theorem exists_dropPlural (l : List Char) : ∃ x, Plural x ∧ l = x ++ dropPlural l := by
  cases l with
  | nil => exact ⟨[], .inl rfl, rfl⟩
  | cons c l =>
    by_cases hc : c = 's' ∨ c = 'S' ∨ c = 'ſ'
    · exact ⟨[c], .inr ⟨c, rfl, hc⟩, by rw [dropPlural, if_pos hc]; rfl⟩
    · exact ⟨[], .inl rfl, by rw [dropPlural, if_neg hc]; rfl⟩

theorem dropPlural_append (hx : Plural x) (hl : ∀ c ∈ l.head?, ¬ (c = 's' ∨ c = 'S' ∨ c = 'ſ')) :
    dropPlural (x ++ l) = l := by
  rcases hx with rfl | ⟨c, rfl, hc⟩
  · cases l with
    | nil => rfl
    | cons c l => exact if_neg (hl c rfl)
  · exact if_pos hc

theorem exists_dropBullet (l : List Char) : ∃ x, Bullet x ∧ l = x ++ dropBullet l := by
  unfold dropBullet
  split
  · next c d r =>
    split
    · next h =>
      obtain ⟨x, hx, hr⟩ := exists_dropBlanks r
      refine ⟨c :: d :: x, .inr ⟨c, d, x, rfl, h.1, List.forall_mem_cons.mpr ⟨h.2, hx⟩⟩, ?_⟩
      rw [List.cons_append, List.cons_append, ← hr]
    · exact ⟨[], .inl rfl, rfl⟩
  · exact ⟨[], .inl rfl, rfl⟩

theorem dropBullet_append (hx : Bullet x) (hl : ∃ c d r, l = c :: d :: r ∧ isBlank c = false ∧
    (c = '-' ∨ c = '*' → isBlank d = false)) : dropBullet (x ++ l) = l := by
  obtain ⟨e, f, s, rfl, hblank, hno⟩ := hl
  rcases hx with rfl | ⟨c, d, r, rfl, hc, hdr⟩
  · rw [List.nil_append, dropBullet, if_neg]
    rintro ⟨he, hf⟩
    exact absurd hf (by simp [hno he])
  · obtain ⟨hd, hr⟩ := List.forall_mem_cons.mp hdr
    rw [List.cons_append, List.cons_append, dropBullet, if_pos ⟨hc, hd⟩]
    refine dropBlanks_append hr fun g hg => ?_
    cases hg
    exact hblank

/-- A character that stands in a word of a marker. -/
def inWord (c : Char) : Bool := (markerWords.flatten).contains c.toLower

theorem Word.inWord (h : Word w) (hc : c ∈ w) : Hints.inWord c = true := by
  refine List.contains_iff_mem.mpr (List.mem_flatten.mpr ⟨_, h, ?_⟩)
  exact List.mem_map_of_mem hc

theorem Word.ne (h : Word w) {d : Char} (hd : Hints.inWord d = false) : d ∉ w := by
  intro hmem
  exact ne_of_test (h.inWord hmem) hd rfl

theorem Word.exists_eq_cons (h : Word w) :
    ∃ c d r, w = c :: d :: r ∧ isBlank c = false ∧ c ≠ '*' ∧ c ≠ '-' ∧ isBlank d = false := by
  have hlen : 2 ≤ w.length := by
    have hall : ∀ m ∈ markerWords, 2 ≤ m.length := by decide
    simpa using hall _ h
  match w, h, hlen with
  | c :: d :: r, h, _ =>
    have hc := h.inWord (c := c) (by simp)
    have hd := h.inWord (c := d) (by simp)
    exact ⟨c, d, r, rfl, not_isBlank (by decide) hc, ne_of_test hc (by decide), ne_of_test hc (by decide),
      not_isBlank (by decide) hd⟩

theorem exists_of_dropWord {m : List Char} (h : dropWord m cs = some r) :
    ∃ x, x.map Char.toLower = m ∧ cs = x ++ r := by
  unfold dropWord at h
  split at h
  · next hm =>
    cases h
    exact ⟨_, hm, (List.take_append_drop _ _).symm⟩
  · cases h

/-- The words of markers begin differently, so that only one can be taken off. -/
theorem findSome?_dropWord (h : Word w) (l : List Char) : markerWords.findSome? (dropWord · (w ++ l)) = some l := by
  have hself : dropWord (w.map Char.toLower) (w ++ l) = some l := by
    unfold dropWord
    rw [List.length_map, List.take_left, List.drop_left, if_pos rfl]
  have hother : ∀ m ∈ markerWords, m ≠ w.map Char.toLower → dropWord m (w ++ l) = none := by
    intro m hm hne
    refine Option.eq_none_iff_forall_ne_some.mpr fun r hr => hne ?_
    obtain ⟨x, hx, he⟩ := exists_of_dropWord hr
    have hheads : ∀ a ∈ markerWords, ∀ b ∈ markerWords, a.head? = b.head? → a = b := by decide
    refine hheads m hm _ h ?_
    obtain ⟨c, d, s, rfl, -⟩ := h.exists_eq_cons
    have hpos : ∀ m ∈ markerWords, m ≠ [] := by decide
    obtain ⟨e, x, rfl⟩ := List.exists_cons_of_ne_nil (l := x) (by rintro rfl; exact hpos m hm hx.symm)
    rw [← hx, (List.cons.inj he).1]
    rfl
  obtain ⟨m, hm, hv⟩ : ∃ m ∈ markerWords, dropWord m (w ++ l) = some l := ⟨_, h, hself⟩
  refine List.findSome?_eq_some_iff.mpr ?_
  obtain ⟨a, b, hab⟩ := List.append_of_mem h
  refine ⟨a, _, b, hab, hself, fun y hy => hother y (hab ▸ List.mem_append_left _ hy) ?_⟩
  have hnodup : markerWords.Nodup := by decide
  rw [hab] at hnodup
  rintro rfl
  exact (List.nodup_append.mp hnodup).2.2 _ hy _ (List.mem_cons_self ..) rfl

/-! ### Fronts -/

theorem Front.heading? (h : Front x) (r : List Char) : heading? (x ++ ':' :: r) = some r := by
  obtain ⟨hindent, hbullet, hstars, hword, hplural, hstars', hgap⟩ := h
  rename_i indent bullet stars word plural stars' gap
  obtain ⟨c, d, s, hw, hblank, hstar, hdash, hblank'⟩ := hword.exists_eq_cons
  have hcolon : dropBlanks (gap ++ ':' :: r) = ':' :: r :=
    dropBlanks_append hgap fun _ h => by cases h; rfl
  have hgaphead : ∀ e ∈ (gap ++ ':' :: r).head?, isBlank e = true ∨ e = ':' := by
    intro e he
    cases gap with
    | nil => cases he; exact .inr rfl
    | cons f gap => cases he; exact .inl (hgap _ (List.mem_cons_self ..))
  have hstars₁ : dropStars (stars' ++ (gap ++ ':' :: r)) = gap ++ ':' :: r := by
    refine dropStars_append hstars' fun e he => ?_
    rintro rfl
    exact absurd (hgaphead _ he) (by decide)
  have hplural₁ : dropPlural (plural ++ (stars' ++ (gap ++ ':' :: r))) = stars' ++ (gap ++ ':' :: r) := by
    refine dropPlural_append hplural fun e he => ?_
    rcases hstars' with rfl | rfl
    · rintro (rfl | rfl | rfl) <;> exact absurd (hgaphead _ he) (by decide)
    · cases he
      decide
  have hword₁ := findSome?_dropWord hword (plural ++ (stars' ++ (gap ++ ':' :: r)))
  have hstars₂ : dropStars (stars ++ (word ++ (plural ++ (stars' ++ (gap ++ ':' :: r))))) =
      word ++ (plural ++ (stars' ++ (gap ++ ':' :: r))) := by
    refine dropStars_append hstars fun e he => ?_
    rw [hw] at he
    cases he
    exact hstar
  have hbullet₁ : dropBullet (bullet ++ (stars ++ (word ++ (plural ++ (stars' ++ (gap ++ ':' :: r)))))) =
      stars ++ (word ++ (plural ++ (stars' ++ (gap ++ ':' :: r)))) := by
    refine dropBullet_append hbullet ?_
    rcases hstars with rfl | rfl
    · exact ⟨c, d, _, by rw [hw]; rfl, hblank, fun h => (h.elim hdash hstar).elim⟩
    · exact ⟨'*', '*', _, rfl, rfl, fun _ => rfl⟩
  have hindent₁ : dropBlanks (indent ++ (bullet ++ (stars ++ (word ++ (plural ++ (stars' ++ (gap ++ ':' :: r))))))) =
      bullet ++ (stars ++ (word ++ (plural ++ (stars' ++ (gap ++ ':' :: r))))) := by
    refine dropBlanks_append hindent fun e he => ?_
    rcases hbullet with rfl | ⟨f, g, t, rfl, hf, -⟩
    · rcases hstars with rfl | rfl
      · rw [hw] at he
        cases he
        exact hblank
      · cases he
        rfl
    · cases he
      rcases hf with rfl | rfl <;> rfl
  simp only [List.append_assoc]
  rw [Hints.heading?, hindent₁, hbullet₁, hstars₂, hword₁, Option.bind_some, hplural₁, hstars₁, hcolon]
  rfl

theorem exists_front (h : heading? cs = some r) : ∃ x, Front x ∧ cs = x ++ ':' :: r := by
  unfold Hints.heading? at h
  obtain ⟨r₁, hr₁, h⟩ := Option.bind_eq_some_iff.mp h
  obtain ⟨m, hm, hword⟩ := List.exists_of_findSome?_eq_some hr₁
  obtain ⟨word, hw, hcs₁⟩ := exists_of_dropWord hword
  obtain ⟨indent, hindent, hcs₂⟩ := exists_dropBlanks cs
  obtain ⟨bullet, hbullet, hcs₃⟩ := exists_dropBullet (dropBlanks cs)
  obtain ⟨stars, hstars, hcs₄⟩ := exists_dropStars (dropBullet (dropBlanks cs))
  obtain ⟨plural, hplural, hr₂⟩ := exists_dropPlural r₁
  obtain ⟨stars', hstars', hr₃⟩ := exists_dropStars (dropPlural r₁)
  obtain ⟨gap, hgap, hr₄⟩ := exists_dropBlanks (dropStars (dropPlural r₁))
  split at h
  · next s hs =>
    cases h
    have hword : Word word := by rwa [Word, hw]
    refine ⟨_, .intro hindent hbullet hstars hword hplural hstars' hgap, ?_⟩
    simp only [List.append_assoc]
    rw [← hs, ← hr₄, ← hr₃, ← hr₂, ← hcs₁, ← hcs₄, ← hcs₃, ← hcs₂]
  · cases h

/-! ### Fronts over the end of a line -/

theorem append_eq_append_cons {α : Type} {l r b a : List α} {c : α} (h : l ++ r = b ++ c :: a) :
    (∃ l', l = b ++ c :: l' ∧ a = l' ++ r) ∨ ∃ b', b = l ++ b' ∧ r = b' ++ c :: a := by
  rcases List.append_eq_append_iff.mp h with ⟨b', hb, hr⟩ | ⟨l', hl, hc⟩
  · exact .inr ⟨b', hb, hr⟩
  · cases l' with
    | nil => exact .inr ⟨[], by rw [hl]; simp, hc.symm⟩
    | cons d l' =>
      obtain ⟨rfl, rfl⟩ := List.cons.inj hc
      exact .inl ⟨l', hl, rfl⟩

theorem Blanks.of_append_cons (h : Blanks (b ++ c :: l)) : Blanks b ∧ Blanks l := by
  obtain ⟨hb, hcl⟩ := List.forall_mem_append.mp h
  exact ⟨hb, (List.forall_mem_cons.mp hcl).2⟩

theorem Blanks.colon_not_mem (h : Blanks l) : ':' ∉ l := fun hmem => absurd (h _ hmem) (by decide)

theorem Front.colon_not_mem (h : Front x) : ':' ∉ x := by
  have hstars : ∀ {l : List Char}, Stars l → ':' ∉ l := by
    rintro l (rfl | rfl) <;> decide
  obtain ⟨hindent, hbullet, hst, hword, hplural, hst', hgap⟩ := h
  have hbullet₁ : ∀ {l : List Char}, Bullet l → ':' ∉ l := by
    rintro l (rfl | ⟨c, d, t, rfl, hc, hdt⟩)
    · exact List.not_mem_nil
    · rw [List.mem_cons, not_or]
      refine ⟨?_, hdt.colon_not_mem⟩
      rintro rfl
      revert hc
      decide
  have hplural₁ : ∀ {l : List Char}, Plural l → ':' ∉ l := by
    rintro l (rfl | ⟨c, rfl, rfl | rfl | rfl⟩) <;> decide
  simp only [List.mem_append, not_or]
  exact ⟨hindent.colon_not_mem, hbullet₁ hbullet, hstars hst, hword.ne (by decide), hplural₁ hplural, hstars hst',
    hgap.colon_not_mem⟩

/-- A line ends in a front before its list sign ends, or behind its word. -/
theorem Front.of_lines (h : Front (b ++ '\n' :: w)) : Front b ∧ Blanks w ∨ Front w := by
  have hstar : ∀ {l b' l' : List Char}, Stars l → l ≠ b' ++ '\n' :: l' := by
    rintro l b' l' hl rfl
    have hmem : '\n' ∈ b' ++ '\n' :: l' := by simp
    rcases hl with h | h
    · simp at h
    · rw [h] at hmem
      exact absurd hmem (by decide)
  generalize hx : b ++ '\n' :: w = x at h
  obtain ⟨hindent, hbullet, hst, hword, hplural, hst', hgap⟩ := h
  rename_i indent bullet stars word plural stars' gap
  rcases append_eq_append_cons hx.symm with ⟨indent', rfl, rfl⟩ | ⟨b₁, rfl, h₁⟩
  · exact .inr (.intro hindent.of_append_cons.2 hbullet hst hword hplural hst' hgap)
  rcases append_eq_append_cons h₁ with ⟨blanks, he, rfl⟩ | ⟨b₂, rfl, h₂⟩
  · refine .inr ?_
    have hblanks : Blanks blanks := by
      rcases hbullet with rfl | ⟨c, d, t, rfl, hc, hdt⟩
      · simp at he
      · cases b₁ with
        | nil =>
          obtain ⟨rfl, -⟩ := List.cons.inj he
          exact absurd hc (by decide)
        | cons e b₁ =>
          rw [(List.cons.inj he).2] at hdt
          exact hdt.of_append_cons.2
    exact .intro hblanks (.inl rfl : Bullet []) hst hword hplural hst' hgap
  rcases append_eq_append_cons h₂ with ⟨_, he, -⟩ | ⟨b₃, rfl, h₃⟩
  · exact absurd he (hstar hst)
  rcases append_eq_append_cons h₃ with ⟨_, he, -⟩ | ⟨b₄, rfl, h₄⟩
  · exact absurd (he ▸ by simp : '\n' ∈ word) (hword.ne (by decide))
  rcases append_eq_append_cons h₄ with ⟨_, he, -⟩ | ⟨b₅, rfl, h₅⟩
  · have hmem : '\n' ∈ plural := by rw [he]; simp
    rcases hplural with rfl | ⟨c, rfl, rfl | rfl | rfl⟩ <;> exact absurd hmem (by decide)
  rcases append_eq_append_cons h₅ with ⟨_, he, -⟩ | ⟨b₆, rfl, rfl⟩
  · exact absurd he (hstar hst')
  exact .inl ⟨.intro hindent hbullet hst hword hplural hst' hgap.of_append_cons.1, hgap.of_append_cons.2⟩

theorem heading?_append (h : heading? b = some r) (l : List Char) : heading? (b ++ l) = some (r ++ l) := by
  obtain ⟨x, hx, rfl⟩ := exists_front h
  rw [List.append_assoc, List.cons_append]
  exact hx.heading? _

/-- A marker whose colon stands behind the end of the line began in this line, or begins again in the next one. -/
theorem heading?_of_lines (h : heading? b = none) (hz : heading? (b ++ '\n' :: u) = some r) :
    ':' ∉ b ∧ (Front b ∧ (dropBlanks u).head? = some ':' ∨ heading? u = some r) := by
  obtain ⟨x, hx, he⟩ := exists_front hz
  rcases append_eq_append_cons he with ⟨b', rfl, rfl⟩ | ⟨a, rfl, hu⟩
  · rw [hx.heading?] at h
    cases h
  · cases a with
    | nil => cases hu
    | cons c a =>
      rw [List.cons_append] at hu
      obtain ⟨rfl, rfl⟩ := List.cons.inj hu
      refine ⟨fun hmem => hx.colon_not_mem (List.mem_append_left _ hmem), ?_⟩
      rcases hx.of_lines with ⟨hb, ha⟩ | ha
      · exact .inl ⟨hb, by rw [dropBlanks_append ha fun _ h => by cases h; rfl]; rfl⟩
      · exact .inr (ha.heading? _)

/-! ### What is announced -/

/-- No word stands behind the colon yet. -/
def Open (r : List Char) : Prop := dropBlanks (dropStars (dropBlanks r)) = []

theorem dropBlanks_append_of_ne_nil (h : dropBlanks l ≠ []) (r : List Char) :
    dropBlanks (l ++ r) = dropBlanks l ++ r := by
  unfold dropBlanks at h ⊢
  rw [List.dropWhile_append, if_neg]
  rwa [List.isEmpty_iff]

theorem dropStars_append_newline (l u : List Char) : dropStars (l ++ '\n' :: u) = dropStars l ++ '\n' :: u := by
  match l with
  | [] | [_] => simp [dropStars]
  | c :: d :: l =>
    by_cases h : c = '*' ∧ d = '*'
    · obtain ⟨rfl, rfl⟩ := h
      rfl
    · have hcd : ∀ t, dropStars (c :: d :: t) = c :: d :: t := by
        intro t
        unfold dropStars
        split
        · next he => exact absurd ⟨(List.cons.inj he).1, (List.cons.inj (List.cons.inj he).2).1⟩ h
        · rfl
      rw [List.cons_append, List.cons_append, hcd, hcd]
      rfl

theorem dropTick_append_newline (l u : List Char) : dropTick (l ++ '\n' :: u) = dropTick l ++ '\n' :: u := by
  cases l with
  | nil => rfl
  | cons c l =>
    by_cases hc : c = '\x60'
    · subst hc
      rfl
    · simp [dropTick, hc]

theorem announced_append_newline (l u : List Char) : announced (l ++ '\n' :: u) = announced l :=
  takeWhile_append_cons rfl l u

/-- What is announced in a line does not depend on the lines behind it. -/
theorem announcement_append (h : ¬ Open r) (u : List Char) :
    announcement (r ++ '\n' :: u) = (announcement r).map fun p => (p.1, p.2 ++ '\n' :: u) := by
  have hr : dropBlanks r ≠ [] := by
    intro he
    exact h (by rw [Open, he]; rfl)
  unfold announcement
  dsimp only
  rw [dropBlanks_append_of_ne_nil hr, dropStars_append_newline, dropBlanks_append_of_ne_nil h]
  simp only [dropTick_append_newline, announced_append_newline]
  cases hinner : announced (dropTick (dropBlanks (dropStars (dropBlanks r)))) with
  | cons c w =>
    simp only [drop_append_of_takeWhile hinner, dropTick_append_newline]
    rfl
  | nil =>
    cases hword : announced (dropTick (dropBlanks r)) with
    | cons c w =>
      simp only [drop_append_of_takeWhile hword, dropTick_append_newline]
      rfl
    | nil => rfl

theorem announcement_suffix {p : List Char × List Char} (h : announcement r = some p) : p.2 <:+ r := by
  have hblanks : ∀ l, dropBlanks l <:+ l := fun l => List.dropWhile_suffix _
  have hstars : ∀ l, dropStars l <:+ l := fun l => by
    obtain ⟨x, -, he⟩ := exists_dropStars l
    exact ⟨x, he.symm⟩
  have htick : ∀ l, dropTick l <:+ l := fun l => by
    unfold dropTick
    split
    · exact List.suffix_cons ..
    · exact List.suffix_rfl
  unfold announcement at h
  dsimp only at h
  split at h
  · split at h
    · cases h
    · cases h
      exact (htick _).trans ((List.drop_suffix _ _).trans ((htick _).trans (hblanks r)))
  · cases h
    exact (htick _).trans ((List.drop_suffix _ _).trans ((htick _).trans ((hblanks _).trans
      ((hstars _).trans (hblanks r)))))

/-- Behind an open colon there are blanks, and perhaps a pair of asterisks that are taken for the path. -/
theorem Open.eq_append (h : Open r) :
    Blanks r ∨ ∃ x y, Blanks x ∧ Blanks y ∧ r = x ++ '*' :: '*' :: y := by
  obtain ⟨x, hx, he⟩ := exists_dropBlanks r
  obtain ⟨y, hy, he₁⟩ := exists_dropBlanks (dropStars (dropBlanks r))
  rw [show dropBlanks (dropStars (dropBlanks r)) = [] from h, List.append_nil] at he₁
  obtain ⟨s, hs, he₂⟩ := exists_dropStars (dropBlanks r)
  rcases hs with rfl | rfl
  · refine .inl ?_
    rw [he, he₂, he₁]
    exact List.forall_mem_append.mpr ⟨hx, hy⟩
  · refine .inr ⟨x, y, hx, hy, ?_⟩
    rw [he₁] at he₂
    rw [he, he₂]
    rfl

theorem Open.colon_not_mem (h : Open r) : ':' ∉ r := by
  rcases h.eq_append with hr | ⟨x, y, hx, hy, rfl⟩
  · exact hr.colon_not_mem
  · simp [hx.colon_not_mem, hy.colon_not_mem]

theorem announcement_of_open {p : List Char × List Char} (h : Open r) (hp : announcement r = some p) :
    p.1 = ['*', '*'] := by
  have hinner : dropTick (dropBlanks (dropStars (dropBlanks r))) = [] := by
    rw [show dropBlanks (dropStars (dropBlanks r)) = [] from h]
    rfl
  unfold announcement at hp
  simp only [hinner] at hp
  rcases h.eq_append with hr | ⟨x, y, hx, hy, rfl⟩
  · have hnil : dropBlanks r = [] := List.dropWhile_eq_nil_iff.mpr hr
    rw [hnil] at hp
    cases hp
  · have hstars : dropBlanks (x ++ '*' :: '*' :: y) = '*' :: '*' :: y := dropBlanks_append hx fun _ h => by cases h; rfl
    have hword : announced ('*' :: '*' :: y) = ['*', '*'] := by
      cases y with
      | nil => rfl
      | cons c y =>
        have hstar : isBlank '*' = false := rfl
        simp [announced, hstar, hy c (List.mem_cons_self ..)]
    have htick : dropTick ('*' :: '*' :: y) = '*' :: '*' :: y := rfl
    rw [hstars, htick, hword] at hp
    cases hp
    rfl

end WorkWaves.Hints
