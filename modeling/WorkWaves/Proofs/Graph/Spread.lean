import WorkWaves.Proofs.Graph.Blocked

/-!
# Everything hopeless is found

A round takes one marked item and marks what waits for it, so there is less to do after each (`Spread.left`), and the
steps given suffice for nothing to be pending in the end. Whatever waits for a marked item is then done or marked
too (`Spread.run_closed`), so `blocked` lists exactly the hopeless items (`mem_blocked_iff`).
-/

namespace WorkWaves.Graph

variable {g : Graph} {done : StringSet} {id b : String}

theorem mem_ids_of_mem_blockersOf (h : b ∈ g.blockersOf id) : id ∈ g.ids := by
  unfold blockersOf entry? at h
  split at h
  · next e he =>
    exact List.mem_map.mpr ⟨e, List.mem_of_find?_eq_some he, by simpa using List.find?_some he⟩
  · exact absurd h StringSet.not_mem_empty

namespace Spread

variable {s s' : Spread}

/-- How much there is to do at most: what is pending, and the items that are not marked. -/
def left (g : Graph) (s : Spread) : Nat := s.pending.length + (g.ids.filter (!s.reasons.contains ·)).length

/-- What marking makes of a spread: marked items stay marked, new ones are pending, and there is no more to do. -/
structure Marks (g : Graph) (s s' : Spread) : Prop where
  reasons : ∀ id, s.reasons.contains id = true → s'.reasons.contains id = true
  pending : ∀ id ∈ s.pending, id ∈ s'.pending
  new : ∀ id, s'.reasons.contains id = true → s.reasons.contains id = true ∨ id ∈ s'.pending
  left_le : s'.left g ≤ s.left g

theorem Marks.refl (s : Spread) : Marks g s s := ⟨fun _ h => h, fun _ h => h, fun _ h => .inl h, Nat.le_refl _⟩

theorem Marks.trans {s'' : Spread} (h : Marks g s s') (h' : Marks g s' s'') : Marks g s s'' where
  reasons id hid := h'.reasons id (h.reasons id hid)
  pending id hid := h'.pending id (h.pending id hid)
  new id hid := (h'.new id hid).elim (fun hid => (h.new id hid).imp_right (h'.pending id)) .inr
  left_le := Nat.le_trans h'.left_le h.left_le

theorem left_insert (hid : id ∈ g.ids) (hnew : s.reasons.contains id = false) (why : BlockReason) :
    left g ⟨s.reasons.insert id why, id :: s.pending⟩ ≤ s.left g := by
  have hsplit : g.ids.filter (fun x => !(s.reasons.insert id why).contains x) =
      (g.ids.filter (!s.reasons.contains ·)).filter (· != id) := by
    rw [List.filter_filter]
    refine List.filter_congr fun x _ => Bool.eq_iff_iff.mpr ?_
    simp only [Bool.not_eq_true', ← Bool.not_eq_true, StringMap.contains_insert, not_or, Bool.and_eq_true, bne_iff_ne]
  have hlt : ((g.ids.filter (!s.reasons.contains ·)).filter (· != id)).length <
      (g.ids.filter (!s.reasons.contains ·)).length := by
    refine List.length_filter_lt_length_iff_exists.mpr ⟨id, ?_, by simp⟩
    simpa [List.mem_filter] using ⟨hid, hnew⟩
  simp only [left, List.length_cons, hsplit]
  omega

variable (done) in
theorem mark_marks (hid : id ∈ g.ids) (why : BlockReason) :
    Marks g s (s.mark g done id why) ∧
      (g.isDone done id = false → (s.mark g done id why).reasons.contains id = true) := by
  unfold mark
  split
  · next h => exact ⟨.refl s, fun hd => by simpa [hd] using h⟩
  · next h =>
    simp only [Bool.or_eq_true, not_or, Bool.not_eq_true] at h
    refine ⟨⟨fun x hx => StringMap.contains_insert.mpr (.inr hx), fun x hx => List.mem_cons_of_mem id hx, fun x hx => ?_,
      left_insert hid h.2 why⟩, fun _ => StringMap.contains_insert.mpr (.inl rfl)⟩
    rcases StringMap.contains_insert.mp hx with rfl | hx
    · exact .inr (List.mem_cons_self ..)
    · exact .inl hx

variable (done) in
theorem foldl_mark_marks {α : Type} (f : α → String) (why : α → BlockReason) {l : List α}
    (hl : ∀ a ∈ l, f a ∈ g.ids) (s : Spread) :
    Marks g s (l.foldl (fun s a => s.mark g done (f a) (why a)) s) ∧ ∀ a ∈ l, g.isDone done (f a) = false →
      (l.foldl (fun s a => s.mark g done (f a) (why a)) s).reasons.contains (f a) = true := by
  induction l generalizing s with
  | nil => exact ⟨.refl s, fun a ha => by cases ha⟩
  | cons a l ih =>
    obtain ⟨hmark, hhas⟩ := mark_marks done (s := s) (hl a (List.mem_cons_self ..)) (why a)
    obtain ⟨hmarks, hall⟩ := ih (fun b hb => hl b (List.mem_cons_of_mem a hb)) (s.mark g done (f a) (why a))
    refine ⟨hmark.trans hmarks, fun b hb hd => ?_⟩
    rcases List.mem_cons.mp hb with rfl | hb
    · exact hmarks.reasons _ (hhas hd)
    · exact hall b hb hd

/-- Whatever waits for the item is done or marked. -/
def Covers (g : Graph) (done : StringSet) (s : Spread) (id : String) : Prop :=
  ∀ d ∈ g.dependentsOf id, g.isDone done d = false → s.reasons.contains d = true

theorem Covers.mono (h : Covers g done s id) (hs : Marks g s s') : Covers g done s' id :=
  fun d hd hnot => hs.reasons d (h d hd hnot)

variable (done) in
/-- Steps enough for all that is left to do lead to a spread in which every marked item is covered. -/
theorem run_closed (hr : g.Reversed) {fuel : Nat} (hfuel : s.left g ≤ fuel)
    (h : ∀ id, s.reasons.contains id = true → id ∈ s.pending ∨ Covers g done s id) :
    (∀ id, s.reasons.contains id = true → (run g done fuel s).reasons.contains id = true) ∧
      ∀ id, (run g done fuel s).reasons.contains id = true → Covers g done (run g done fuel s) id := by
  induction fuel generalizing s with
  | zero =>
    have hp : s.pending = [] := List.eq_nil_of_length_eq_zero (by unfold left at hfuel; omega)
    exact ⟨fun _ hid => hid, fun id hid => (h id hid).resolve_left (by simp [hp])⟩
  | succ fuel ih =>
    unfold run
    split
    · next hp => exact ⟨fun _ hid => hid, fun id hid => (h id hid).resolve_left (by simp [hp])⟩
    · next id rest hp =>
      obtain ⟨hmarks, hall⟩ := foldl_mark_marks done (fun d => d) (fun _ => .behind id)
        (l := (g.dependentsOf id).toList) (fun d hd => mem_ids_of_mem_blockersOf ((hr d id).mp hd))
        { s with pending := rest }
      have hleft := hmarks.left_le
      simp only [left, hp, List.length_cons] at hfuel hleft
      refine (ih (by unfold left; omega) fun x hx => ?_).imp_left fun hrun x hx => hrun x (hmarks.reasons x hx)
      rcases hmarks.new x hx with hx | hx
      · rcases h x hx with hx | hx
        · rw [hp] at hx
          rcases List.mem_cons.mp hx with rfl | hx
          · exact .inr hall
          · exact .inl (hmarks.pending x hx)
        · exact .inr (Covers.mono (s := { s with pending := rest }) hx hmarks)
      · exact .inl hx

end Spread

/-- A graph that knows the items of its orphans lists exactly what is hopeless. -/
theorem mem_blocked_iff (hr : g.Reversed) (ho : ∀ o ∈ g.orphans, o.itemId ∈ g.ids) :
    id ∈ (g.blocked done).map (·.itemId) ↔ g.policy = .block ∧ g.Hopeless done id := by
  constructor
  · intro h
    obtain ⟨b, hb, rfl⟩ := List.mem_map.mp h
    obtain ⟨hp, -, hh⟩ := hopeless_of_mem_blocked hr hb
    exact ⟨hp, hh⟩
  · rintro ⟨hp, hh⟩
    obtain ⟨hseeds, hall⟩ := Spread.foldl_mark_marks done Orphan.itemId
      (fun o => .unresolved o.blockerId) ho {}
    have hfuel : Spread.left g {} ≤ g.size + 1 := by
      have := List.length_filter_le (!(∅ : StringMap BlockReason).contains ·) g.ids
      simp only [Spread.left, List.length_nil, Nat.zero_add]
      simp only [ids, List.length_map] at this
      exact Nat.le_succ_of_le this
    obtain ⟨hkeep, hclosed⟩ := Spread.run_closed done hr (Nat.le_trans hseeds.left_le hfuel)
      fun id hid => (hseeds.new id hid).elim (fun h => by simp [StringMap.contains] at h) .inl
    have hmem : id ∈ g.ids := by
      cases hh with
      | orphan hor _ => exact ho _ hor
      | behind _ hb _ => exact mem_ids_of_mem_blockersOf hb
    rw [blocked, hp, map_itemId_listed]
    refine List.mem_filter.mpr ⟨hmem, ?_⟩
    clear hmem
    induction hh with
    | orphan hor hd => exact hkeep _ (hall _ hor hd)
    | behind _ hb hd ih => exact hclosed _ ih _ ((hr _ _).mpr hb) hd

end WorkWaves.Graph
