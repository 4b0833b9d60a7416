import Mathlib.Data.List.TakeWhile
import WorkWaves.Manifest.Archive

/-!
# What archived names tell

A name tells an id that it equals or goes on from with a hyphen (`Tells`), and of the known ids that it tells the
longest one counts (`Longest`). A name that tells none counts for the id-like word that it starts with, whatever comes
after that (`Heads`). So an id can also be complete by a name that goes on from it without a hyphen
(`Manifest.complete_of_overrun`); apart from that the known ids are complete that the manifest says or that are the
longest told by a name (`Manifest.archived_of_list`).
-/

namespace WorkWaves

namespace Archive

variable {known : List String} {name id : String}

/-- A name that is the id, or goes on from it with a hyphen. -/
def Tells (name id : String) : Prop := name = id ∨ (id.toList ++ ['-']) <+: name.toList

/-- The longest known id that a name tells. -/
structure Longest (known : List String) (name id : String) : Prop where
  mem : id ∈ known
  tells : Tells name id
  longest : ∀ x ∈ known, Tells name x → x.length ≤ id.length

/-- A letter, more letters and digits, a hyphen, and a number. -/
def Shaped (id : String) : Prop :=
  ∃ c word digits, id.toList = c :: word ++ '-' :: digits ∧ c.isAlpha = true ∧ (∀ x ∈ word, x.isAlphanum = true) ∧
    digits ≠ [] ∧ ∀ x ∈ digits, Text.isDecimalDigit x = true

/-- A name that starts with an id-like word; the number in it goes as far as it can. -/
def Heads (name id : String) : Prop :=
  Shaped id ∧ ∃ rest, name.toList = id.toList ++ rest ∧ ∀ x ∈ rest.head?, Text.isDecimalDigit x = false

/-- A name that goes on from an id-like word with neither a hyphen nor a digit. -/
def Overruns (name id : String) : Prop :=
  Shaped id ∧ ∃ c rest, name.toList = id.toList ++ c :: rest ∧ c ≠ '-' ∧ Text.isDecimalDigit c = false

theorem tells_iff : tells name id = true ↔ Tells name id := by
  simp [tells, Tells]

theorem Tells.isPrefix (h : Tells name id) : id.toList <+: name.toList := by
  rcases h with rfl | h
  · exact List.prefix_rfl
  · exact (List.prefix_append _ _).trans h

/-! ### Longer and shorter -/

variable {x y : String}

theorem exists_append_of_prefix (h : x.toList <+: y.toList) : ∃ z, y = x ++ z := by
  obtain ⟨z, hz⟩ := h
  refine ⟨String.ofList z, String.toList_inj.mp ?_⟩
  simp [hz]

/-- Of two ids that a name tells, the one with fewer bytes has fewer characters. -/
theorem Tells.size_le_iff (hx : Tells name x) (hy : Tells name y) :
    x.utf8ByteSize ≤ y.utf8ByteSize ↔ x.length ≤ y.length := by
  rcases List.prefix_or_prefix_of_prefix hx.isPrefix hy.isPrefix with h | h
  · obtain ⟨z, rfl⟩ := exists_append_of_prefix h
    simp
  · obtain ⟨z, rfl⟩ := exists_append_of_prefix h
    have hz : z.utf8ByteSize = 0 ↔ z.length = 0 := by
      rw [String.utf8ByteSize_eq_zero_iff, String.length_eq_zero_iff]
    simp only [String.utf8ByteSize_append, String.length_append]
    omega

theorem Tells.eq_of_length_eq (hx : Tells name x) (hy : Tells name y) (h : x.length = y.length) : x = y := by
  have hlen : x.toList.length = y.toList.length := by rw [String.length_toList, String.length_toList, h]
  rcases List.prefix_or_prefix_of_prefix hx.isPrefix hy.isPrefix with h | h
  · exact String.toList_inj.mp (h.eq_of_length hlen)
  · exact (String.toList_inj.mp (h.eq_of_length hlen.symm)).symm

theorem Longest.unique (hx : Longest known name x) (hy : Longest known name y) : x = y :=
  hx.tells.eq_of_length_eq hy.tells (Nat.le_antisymm (hy.longest x hx.mem hx.tells) (hx.longest y hy.mem hy.tells))

/-! ### The known id that a name tells -/

theorem foldl_longer_mem (l : List String) (a : String) : l.foldl longer a ∈ a :: l := by
  induction l generalizing a with
  | nil => simp
  | cons b l ih =>
    have hlonger : longer a b = a ∨ longer a b = b := by
      unfold longer
      split <;> simp
    rw [List.foldl_cons]
    have hmem := ih (longer a b)
    rcases hlonger with h | h
    · rw [h] at hmem ⊢
      exact (List.sublist_cons_self b l).cons_cons a |>.subset hmem
    · rw [h] at hmem ⊢
      exact List.mem_cons_of_mem a hmem

theorem size_le_foldl_longer (l : List String) (a : String) :
    ∀ x ∈ a :: l, x.utf8ByteSize ≤ (l.foldl longer a).utf8ByteSize := by
  induction l generalizing a with
  | nil => simp
  | cons b l ih =>
    have ha : a.utf8ByteSize ≤ (longer a b).utf8ByteSize := by
      unfold longer
      split <;> omega
    have hb : b.utf8ByteSize ≤ (longer a b).utf8ByteSize := by
      unfold longer
      split <;> omega
    obtain ⟨hhead, htail⟩ := List.forall_mem_cons.mp (ih (longer a b))
    exact List.forall_mem_cons.mpr ⟨ha.trans hhead, List.forall_mem_cons.mpr ⟨hb.trans hhead, htail⟩⟩

theorem knownId?_eq_none : knownId? known name = none ↔ ∀ x ∈ known, ¬ Tells name x := by
  unfold knownId?
  split
  · next h => simpa [tells_iff] using List.filter_eq_nil_iff.mp h
  · next a r h =>
    refine ⟨nofun, fun hnone => ?_⟩
    have ha : a ∈ known.filter (tells name) := h ▸ List.mem_cons_self ..
    obtain ⟨ha, ht⟩ := List.mem_filter.mp ha
    exact absurd (tells_iff.mp ht) (hnone a ha)

theorem longest_of_knownId? (h : knownId? known name = some id) : Longest known name id := by
  unfold knownId? at h
  split at h
  · cases h
  · next a r hf =>
    cases h
    have hmem {x : String} : x ∈ a :: r ↔ x ∈ known ∧ Tells name x := by
      rw [← hf, List.mem_filter, tells_iff]
    obtain ⟨hk, ht⟩ := hmem.mp (foldl_longer_mem r a)
    exact ⟨hk, ht, fun x hx hxt => (hxt.size_le_iff ht).mp (size_le_foldl_longer r a x (hmem.mpr ⟨hx, hxt⟩))⟩

theorem knownId?_eq_some : knownId? known name = some id ↔ Longest known name id := by
  refine ⟨longest_of_knownId?, fun h => ?_⟩
  cases hk : knownId? known name with
  | none => exact absurd h.tells (knownId?_eq_none.mp hk id h.mem)
  | some x => rw [(longest_of_knownId? hk).unique h]

/-! ### The id-like word that a name starts with -/

theorem takeWhile_append {f : Char → Bool} {l r : List Char} (hl : ∀ x ∈ l, f x = true)
    (hr : ∀ x ∈ r.head?, f x = false) : (l ++ r).takeWhile f = l := by
  rw [List.takeWhile_append_of_pos hl]
  cases r with
  | nil => exact List.append_nil l
  | cons c r => rw [List.takeWhile_cons_of_neg (by simp [hr c rfl]), List.append_nil]

theorem heads_of_leadingId? (h : leadingId? name = some id) : Heads name id := by
  unfold leadingId? at h
  split at h
  · cases h
  · next c r hname =>
    split at h
    · cases h
    · next hc =>
      dsimp only at h
      split at h
      · next s hs =>
        split at h
        · cases h
        · next hd =>
          cases h
          have hr := List.prefix_iff_eq_append.mp (List.takeWhile_prefix (l := r) Char.isAlphanum)
          rw [hs] at hr
          have hdigits := List.takeWhile_append_dropWhile (p := Text.isDecimalDigit) (l := s)
          refine ⟨⟨c, _, _, String.toList_ofList, by simpa using hc, fun x => List.mem_takeWhile_imp,
            by simpa using hd, fun x => List.mem_takeWhile_imp⟩, s.dropWhile Text.isDecimalDigit, ?_, ?_⟩
          · rw [hname, String.toList_ofList]
            simp only [List.cons_append, List.append_assoc, hdigits, hr]
          · intro x hx
            have := List.head?_dropWhile_not Text.isDecimalDigit s
            rw [Option.mem_def.mp hx] at this
            exact this
      · cases h

theorem leadingId?_eq_some : leadingId? name = some id ↔ Heads name id := by
  refine ⟨heads_of_leadingId?, ?_⟩
  rintro ⟨⟨c, word, digits, hid, hc, hword, hne, hdigits⟩, rest, hname, hrest⟩
  rw [hid, List.cons_append, List.cons_append, List.append_assoc, List.cons_append] at hname
  have hw : (word ++ '-' :: (digits ++ rest)).takeWhile Char.isAlphanum = word :=
    takeWhile_append hword (by simp)
  have hd : (digits ++ rest).takeWhile Text.isDecimalDigit = digits := takeWhile_append hdigits hrest
  unfold leadingId?
  rw [hname]
  simp only [hc, hw, hd, List.drop_left]
  simp [hne, ← hid]

/-! ### What a directory tells -/

variable {entries : List (String × FileEntry)}

theorem mem_told : id ∈ told known entries ↔
    ∃ stem ∈ stems entries, Longest known stem id ∨ (∀ x ∈ known, ¬ Tells stem x) ∧ Heads stem id := by
  rw [told, StringSet.mem_ofList, List.mem_filterMap]
  simp only [idOf?, Option.or_eq_some_iff, knownId?_eq_some, knownId?_eq_none, leadingId?_eq_some]

theorem mem_stems {stem : String} : stem ∈ stems entries ↔
    ∃ name a, (name, .file a) ∈ entries ∧ Path.fileStem? name = some stem := by
  unfold stems
  rw [List.mem_filterMap]
  constructor
  · rintro ⟨⟨name, e⟩, he, hs⟩
    cases e with
    | file a => exact ⟨name, a, he, hs⟩
    | directory => cases hs
  · rintro ⟨name, a, he, hs⟩
    exact ⟨_, he, hs⟩

theorem Longest.congr {known' : List String} (h : ∀ x, x ∈ known' ↔ x ∈ known) :
    Longest known' name id ↔ Longest known name id := by
  constructor
  · rintro ⟨hmem, ht, hl⟩
    exact ⟨(h id).mp hmem, ht, fun x hx => hl x ((h x).mpr hx)⟩
  · rintro ⟨hmem, ht, hl⟩
    exact ⟨(h id).mpr hmem, ht, fun x hx => hl x ((h x).mp hx)⟩

/-- Neither the order of the known ids nor that of the directory matters. -/
theorem told_congr {known' : List String} {entries' : List (String × FileEntry)} (hk : ∀ x, x ∈ known' ↔ x ∈ known)
    (he : ∀ e, e ∈ entries' ↔ e ∈ entries) : told known' entries' = told known entries := by
  have hstems : ∀ stem, stem ∈ stems entries' ↔ stem ∈ stems entries := fun stem => by
    simp only [mem_stems, he]
  exact StringSet.ext_mem fun id => by simp only [mem_told, hstems, Longest.congr hk, hk]

/-- A known id that an id-like name starts with is told by it, or overrun. -/
theorem Heads.tells_or_overruns (h : Heads name id) : Tells name id ∨ Overruns name id := by
  obtain ⟨hs, rest, hname, hrest⟩ := h
  cases rest with
  | nil =>
    rw [List.append_nil] at hname
    exact .inl (.inl (String.toList_inj.mp hname))
  | cons c rest =>
    by_cases hc : c = '-'
    · exact .inl (.inr ⟨rest, by simp [hname, hc]⟩)
    · exact .inr ⟨hs, c, rest, hname, hc, hrest c rfl⟩

theorem Overruns.heads (h : Overruns name id) : Heads name id := by
  obtain ⟨hs, c, rest, hname, -, hc⟩ := h
  refine ⟨hs, c :: rest, hname, fun x hx => ?_⟩
  cases hx
  exact hc

end Archive

namespace Manifest

variable {m : Manifest} {t : FileTree} {dir : String}

open Archive

theorem completedIds_eq_ok {entries : List (String × FileEntry)} (h : t.list dir = .ok entries) :
    m.completedIds t (some dir) = .ok (.ofList m.completed ∪ told m.knownIds.toList entries) := by
  simp only [completedIds, Archive.ids, h]
  rfl

/-- What is complete by a directory of finished items. Of the known ids, these are the ones that the manifest says, the
longest told by a name, and those that a name which tells none goes on from without a hyphen. -/
theorem archived_of_list {entries : List (String × FileEntry)} (h : t.list dir = .ok entries) :
    ∃ done, m.completedIds t (some dir) = .ok done ∧
      (∀ id, id ∈ done ↔ id ∈ m.completed ∨ ∃ stem ∈ stems entries,
        Longest m.knownIds.toList stem id ∨ (∀ x ∈ m.knownIds, ¬ Tells stem x) ∧ Heads stem id) ∧
      (∀ id ∈ m.knownIds, id ∈ done ↔ id ∈ m.completed ∨ ∃ stem ∈ stems entries,
        Longest m.knownIds.toList stem id ∨ (∀ x ∈ m.knownIds, ¬ Tells stem x) ∧ Overruns stem id) ∧
      ∀ known' entries', (∀ x, x ∈ known' ↔ x ∈ m.knownIds) → (∀ e, e ∈ entries' ↔ e ∈ entries) →
        .ofList m.completed ∪ told known' entries' = done := by
  have hall (id : String) : id ∈ StringSet.ofList m.completed ∪ told m.knownIds.toList entries ↔ id ∈ m.completed ∨
      ∃ stem ∈ stems entries,
        Longest m.knownIds.toList stem id ∨ (∀ x ∈ m.knownIds, ¬ Tells stem x) ∧ Heads stem id := by
    rw [StringSet.mem_union, StringSet.mem_ofList, mem_told]
    rfl
  refine ⟨_, completedIds_eq_ok h, hall, fun id hid => ?_, fun known' entries' hk he => ?_⟩
  · -- A known id that is not told is followed by another character.
    have hheads (stem : String) (hn : ∀ x ∈ m.knownIds, ¬ Tells stem x) : Heads stem id ↔ Overruns stem id :=
      ⟨fun hh => hh.tells_or_overruns.resolve_left (hn id hid), Overruns.heads⟩
    rw [hall]
    refine or_congr_right (exists_congr fun stem => and_congr_right fun _ => or_congr_right ?_)
    exact and_congr_right fun hn => hheads stem hn
  · rw [told_congr hk he]

end Manifest

namespace Archive

/-- An archive with `ENH-1-2`, and with an issue whose id goes on from `BUG-1` with a letter. -/
def siblings : FileTree where
  entries := [(["archive"], .directory), (["archive", "ENH-1-2-cleanup.md"], .file ""),
    (["archive", "BUG-1a.md"], .file "")]

theorem list_siblings :
    siblings.list "archive" = .ok [("ENH-1-2-cleanup.md", .file ""), ("BUG-1a.md", .file "")] := by
  decide +kernel

theorem stems_siblings :
    stems [("ENH-1-2-cleanup.md", .file ""), ("BUG-1a.md", .file "")] = ["ENH-1-2-cleanup", "BUG-1a"] := by
  decide +kernel

end Archive

namespace Manifest

open Archive

/-- Of two known ids, the longer one is complete. -/
theorem archived_of_siblings : ∃ done,
    (⟨[{ id := "ENH-1" }, { id := "ENH-1-2" }], []⟩ : Manifest).completedIds siblings (some "archive") = .ok done ∧
    "ENH-1-2" ∈ done ∧ "ENH-1" ∉ done ∧
    .ofList [] ∪ told ["ENH-1-2", "ENH-1"] [("BUG-1a.md", .file ""), ("ENH-1-2-cleanup.md", .file "")] = done := by
  obtain ⟨done, hdone, -, -, hcongr⟩ :=
    archived_of_list (m := ⟨[{ id := "ENH-1" }, { id := "ENH-1-2" }], []⟩) list_siblings
  have hids : (⟨[{ id := "ENH-1" }, { id := "ENH-1-2" }], []⟩ : Manifest).knownIds.toList = ["ENH-1", "ENH-1-2"] := by
    decide +kernel
  have hv : (⟨[{ id := "ENH-1" }, { id := "ENH-1-2" }], []⟩ : Manifest).completedIds siblings (some "archive") =
      .ok (.ofList ["BUG-1", "ENH-1-2"]) := by decide +kernel
  obtain rfl : done = .ofList ["BUG-1", "ENH-1-2"] := Except.ok.inj (hdone.symm.trans hv)
  refine ⟨_, hdone, by decide +kernel, by decide +kernel, hcongr _ _ (fun x => ?_) fun e => ?_⟩
  · rw [StringSet.mem_def, hids]
    simp [or_comm]
  · simp [or_comm]

/-- An id that a name goes on from with a letter is complete, though the manifest does not say so and no name tells
it. -/
theorem complete_of_overrun : ∃ entries done, siblings.list "archive" = .ok entries ∧
    (⟨[{ id := "BUG-1" }], []⟩ : Manifest).completedIds siblings (some "archive") = .ok done ∧
    "BUG-1" ∈ (⟨[{ id := "BUG-1" }], []⟩ : Manifest).knownIds ∧ "BUG-1" ∈ done ∧
    ∀ stem ∈ stems entries, ¬ Tells stem "BUG-1" := by
  refine ⟨_, .ofList ["BUG-1", "ENH-1"], list_siblings, by decide +kernel, by decide +kernel, by decide +kernel, ?_⟩
  rw [stems_siblings]
  simp only [← tells_iff]
  decide +kernel

end Manifest

end WorkWaves
