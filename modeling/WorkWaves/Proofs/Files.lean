import WorkWaves.Files.Tree

/-!
# What is read after writing

A path leads to its place over directories. Where the working directory is there (`Anchored`), writing and moving a
file leave the directories that a path crosses, so it leads to the same place afterwards (`locate_congr`), and what
was written is read there (`read_write`, `read_rename`).
-/

namespace WorkWaves.FileTree

variable {t t' : FileTree} {a b p q place : Place} {e : FileEntry} {path source target text : String}

theorem lookup_filter {f : Place → Bool} (hf : f p = true) (l : List (Place × FileEntry)) :
    (l.filter fun e => f e.1).lookup p = l.lookup p := by
  induction l with
  | nil => rfl
  | cons e l ih =>
    obtain ⟨k, v⟩ := e
    by_cases hk : p = k
    · subst hk
      rw [List.filter_cons_of_pos (by exact hf), List.lookup_cons_self, List.lookup_cons_self]
    · rw [List.lookup_cons, beq_false_of_ne hk, ← ih]
      by_cases hfk : f k = true
      · rw [List.filter_cons_of_pos (by exact hfk), List.lookup_cons, beq_false_of_ne hk]
      · rw [List.filter_cons_of_neg (by exact hfk)]

theorem entry?_put (hplace : place ≠ []) : entry? (t.put place e) p = if p = place then some e else t.entry? p := by
  unfold entry? put
  split
  · next hp => rw [if_neg fun he : p = place => hplace (he ▸ hp)]
  · split
    · next hp =>
      subst hp
      exact List.lookup_cons_self
    · next hp =>
      simp only [List.lookup_cons, beq_false_of_ne hp]
      exact lookup_filter (f := (· != place)) (bne_iff_ne.mpr hp) t.entries

theorem entry?_remove (h : ¬ place <+: p) : entry? (t.remove place) p = t.entry? p := by
  unfold entry? remove
  split
  · rfl
  · refine lookup_filter (f := fun k => !place.isPrefixOf k) ?_ t.entries
    rw [Bool.not_eq_true', Bool.eq_false_iff]
    exact fun hp => h (List.isPrefixOf_iff_prefix.mp hp)

theorem ne_nil_of_not_directory (h : t.entry? place ≠ some .directory) : place ≠ [] := by
  rintro rfl
  exact h rfl

/-! ### Where paths lead -/

theorem step_eq_ok {c : Component} (h : t.step p c = .ok q) :
    t.entry? p = some .directory ∧ (q <+: p ∨ ∃ s, q = p ++ [s]) := by
  unfold step at h
  split at h
  · cases h
  · cases h
  · next hp =>
    refine ⟨hp, ?_⟩
    cases c with
    | root => cases h; exact .inl List.nil_prefix
    | here => cases h; exact .inl List.prefix_rfl
    | up => cases h; exact .inl (List.dropLast_prefix p)
    | name s =>
      simp only at h
      split at h
      · cases h; exact .inr ⟨s, rfl⟩
      · cases h

theorem step_congr (h : t'.entry? p = t.entry? p) (c : Component) : t'.step p c = t.step p c := by
  unfold step
  rw [h]

/-- A walk never comes below a place that is no directory, so it needs none of the directories there. -/
theorem foldlM_step_congr (ha : t.entry? a ≠ some .directory)
    (hdir : ∀ p, ¬ a <+: p → t.entry? p = some .directory → t'.entry? p = some .directory) {cs : List Component}
    (hp : a <+: p → p = a) (h : cs.foldlM t.step p = .ok q) : cs.foldlM t'.step p = .ok q := by
  induction cs generalizing p with
  | nil => exact h
  | cons c cs ih =>
    rw [List.foldlM_cons] at h ⊢
    cases hs : t.step p c with
    | error e => simp [hs, bind, Except.bind] at h
    | ok r =>
      obtain ⟨hentry, hr⟩ := step_eq_ok hs
      have hbelow : ¬ a <+: p := fun hap => ha (hp hap ▸ hentry)
      rw [step_congr ((hdir p hbelow hentry).trans hentry.symm), hs]
      rw [hs] at h
      refine ih (fun har => ?_) h
      rcases hr with hr | ⟨s, rfl⟩
      · exact absurd (har.trans hr) hbelow
      · exact ((List.prefix_concat_iff.mp har).resolve_right hbelow).symm

theorem locate_eq_ok : t.locate path = .ok place ↔ path.isEmpty = false ∧ pathFault? path = none ∧
    (Path.components path).foldlM t.step t.here = .ok place ∧
      ∀ text, t.entry? place = some (.file text) → asksForDirectory path = false := by
  unfold locate
  cases path.isEmpty with
  | true => simp [bind, Except.bind]
  | false =>
    cases pathFault? path with
    | some e => simp [bind, Except.bind]
    | none =>
      cases (Path.components path).foldlM t.step t.here with
      | error e => simp [bind, Except.bind]
      | ok q =>
        simp only [bind, Except.bind, Bool.false_eq_true, if_false, true_and, Except.ok.injEq]
        split
        · next text hq =>
          cases hd : asksForDirectory path with
          | false => simp
          | true =>
            simp only [if_true, reduceCtorEq, false_iff]
            rintro ⟨rfl, h⟩
            exact absurd (h text hq) (by simp)
        · next hq =>
          rw [Except.ok.injEq]
          refine ⟨fun h => ⟨h, fun text ht => absurd (h ▸ ht) (hq text)⟩, And.left⟩

/-- The working directory is there. -/
def Anchored (t : FileTree) : Prop := ∀ p, p <+: t.here → t.entry? p = some .directory

/-- A path leads where it did if the directories are there that do not lie below something that was none. -/
theorem locate_congr (h : t.Anchored) (ha : t.entry? a ≠ some .directory) (hhere : t'.here = t.here)
    (hdir : ∀ p, ¬ a <+: p → t.entry? p = some .directory → t'.entry? p = some .directory)
    (hask : asksForDirectory path = false) (hl : t.locate path = .ok place) : t'.locate path = .ok place := by
  obtain ⟨he, hf, hw, -⟩ := locate_eq_ok.mp hl
  refine locate_eq_ok.mpr ⟨he, hf, ?_, fun _ _ => hask⟩
  rw [hhere]
  exact foldlM_step_congr ha hdir (fun hp => absurd (h a hp) ha) hw

/-! ### Reading and writing -/

theorem read_eq_ok : t.read path = .ok text ↔
    ∃ place, t.locate path = .ok place ∧ t.entry? place = some (.file text) := by
  unfold read
  cases t.locate path with
  | error e => simp [bind, Except.bind]
  | ok place =>
    simp only [bind, Except.bind, Except.ok.injEq, exists_eq_left']
    cases t.entry? place with
    | none => simp
    | some e => cases e <;> simp

theorem write_eq_ok (h : t.write path text = .ok t') : ∃ place, t.locate path = .ok place ∧
    asksForDirectory path = false ∧ t.entry? place ≠ some .directory ∧ t' = t.put place (.file text) := by
  unfold write at h
  cases hl : t.locate path with
  | error e => simp [hl, bind, Except.bind] at h
  | ok place =>
    simp only [hl, bind, Except.bind] at h
    cases hd : asksForDirectory path with
    | true => simp [hd] at h
    | false =>
      simp only [hd, Bool.false_eq_true, if_false] at h
      refine ⟨place, rfl, rfl, ?_⟩
      split at h
      · cases h
      · next hne =>
        split at h
        · exact ⟨hne, (Except.ok.inj h).symm⟩
        · cases h

theorem rename_eq_ok (h : t.rename source target = .ok t') : ∃ a b text, t.locate source = .ok a ∧
    t.locate target = .ok b ∧ t.entry? a = some (.file text) ∧ t.entry? b ≠ some .directory ∧
      asksForDirectory target = false ∧ t' = (t.remove a).put b (.file text) := by
  unfold rename at h
  cases ha : t.locate source with
  | error e => simp [ha, bind, Except.bind] at h
  | ok a =>
    cases hb : t.locate target with
    | error e => simp [ha, hb, bind, Except.bind] at h
    | ok b =>
      simp only [ha, hb, bind, Except.bind] at h
      split at h
      · cases h
      · cases h
      · cases h
      · next text ht hne =>
        split at h
        · cases h
        · next hask =>
          split at h
          · exact ⟨a, b, text, rfl, rfl, ht, hne, Bool.eq_false_iff.mpr hask, (Except.ok.inj h).symm⟩
          · cases h

/-- What was written is read. -/
theorem read_write (h : t.Anchored) (hw : t.write path text = .ok t') : t'.Anchored ∧ t'.read path = .ok text := by
  obtain ⟨place, hl, hask, hne, rfl⟩ := write_eq_ok hw
  have hentry : ∀ p, entry? (t.put place (.file text)) p = if p = place then some (.file text) else t.entry? p :=
    fun p => entry?_put (ne_nil_of_not_directory hne)
  have hdir : ∀ p, t.entry? p = some .directory → entry? (t.put place (.file text)) p = some .directory :=
    fun p hp => (hentry p).trans ((if_neg fun he : p = place => hne (he ▸ hp)).trans hp)
  refine ⟨fun p hp => hdir p (h p hp), read_eq_ok.mpr ⟨place, ?_, (hentry place).trans (if_pos rfl)⟩⟩
  exact locate_congr h hne rfl (fun p _ => hdir p) hask hl

/-- What was read of a file is read at the place to which it was moved. -/
theorem read_rename (h : t.Anchored) (hr : t.rename source target = .ok t') (hs : t.read source = .ok text) :
    t'.read target = .ok text := by
  obtain ⟨a, b, text', ha, hb, hat, hbd, hask, rfl⟩ := rename_eq_ok hr
  obtain ⟨place, hplace, htext⟩ := read_eq_ok.mp hs
  obtain rfl : a = place := Except.ok.inj (ha.symm.trans hplace)
  obtain rfl : text' = text := by simpa using hat.symm.trans htext
  have hentry : ∀ p, entry? ((t.remove a).put b (.file text')) p =
      if p = b then some (.file text') else entry? (t.remove a) p := fun p => entry?_put (ne_nil_of_not_directory hbd)
  refine read_eq_ok.mpr ⟨b, ?_, (hentry b).trans (if_pos rfl)⟩
  refine locate_congr h (a := a) (by simp [hat]) rfl (fun p hap hp => ?_) hask hb
  rw [hentry, if_neg fun he : p = b => hbd (he ▸ hp), entry?_remove hap, hp]

/-! ### Making directories -/

theorem makeAlong_anchored (h : t.Anchored) (place : Place) (cs : List Component) : (t.makeAlong place cs).1.Anchored := by
  induction cs generalizing t place with
  | nil => exact h
  | cons c cs ih =>
    unfold makeAlong
    split
    · exact h
    · next next hs =>
      split
      · exact ih h _
      · exact h
      · next hn =>
        have hne : next ≠ [] := ne_nil_of_not_directory (t := t) (by simp [hn])
        refine ih (fun p hp => ?_) _
        rw [entry?_put hne]
        split
        · rfl
        · exact h p hp

theorem makeDirectories_anchored (h : t.Anchored) : (t.makeDirectories path).1.Anchored := by
  unfold makeDirectories
  split
  · exact h
  · split
    · have hmade := makeAlong_anchored h t.here (Path.components path).dropLast
      split
      · next t' hm => rw [hm] at hmade; exact hmade
      · exact hmade
    · exact makeAlong_anchored h _ _

end WorkWaves.FileTree
