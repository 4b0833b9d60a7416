import WorkWaves.Graph.Blocked
import WorkWaves.Proofs.Graph.Tables

/-!
# What a built graph holds

`Built`: the entries of a graph are the items it was built from, each with exactly the ids that it awaits, and
its orphans are the awaited ids that are neither items nor completed. Everything else about graphs follows
from these facts.
-/

namespace WorkWaves

/-- By the word of some items, one id waits for another one. -/
def Declared (items : List Item) (id b : String) : Prop :=
  ∃ i ∈ items, i.id = id ∧ (b ∈ i.blockedBy ∨ ∃ j ∈ items, j.id = b ∧ id ∈ j.blocks)

namespace Graph

/-- An item awaits the ids that it names in `blockedBy` and the items that name it in `blocks`, but no
orphan under a policy that lets orphans through. -/
def Awaits (items : List Item) (completed : StringSet) (policy : OrphanPolicy) (i : Item) (b : String) : Prop :=
  (b ∈ i.blockedBy ∨ ∃ j ∈ items, j.id = b ∧ i.id ∈ j.blocks) ∧
    (policy = .satisfy → b ∈ completed ∨ ∃ j ∈ items, j.id = b)

variable {items : List Item} {completed : StringSet} {policy : OrphanPolicy} {g : Graph}

theorem not_isOrphan_iff {b : String} :
    isOrphan items completed b = false ↔ b ∈ completed ∨ ∃ j ∈ items, j.id = b := by
  rw [← Bool.not_eq_true, isOrphan_iff]
  by_cases hb : b ∈ completed
  · simp [hb]
  · simp [hb]

theorem mem_effectiveBlockers {i : Item} {b : String} :
    b ∈ effectiveBlockers items completed policy i ↔ Awaits items completed policy i b := by
  unfold effectiveBlockers Awaits
  rw [← mem_declaredBlockers]
  cases policy with
  | block => simp
  | satisfy => simp [StringSet.mem_filter, not_isOrphan_iff]

theorem mem_orphansOf {o : Orphan} :
    o ∈ orphansOf items completed ↔ ∃ i ∈ items, i.id = o.itemId ∧
      o.blockerId ∈ declaredBlockers items i ∧ isOrphan items completed o.blockerId = true := by
  simp only [orphansOf, orphansAt, List.mem_flatMap, List.mem_mergeSort, List.mem_map]
  constructor
  · rintro ⟨i, hi, b, hb, rfl⟩
    exact ⟨i, hi, rfl, StringSet.mem_filter.mp hb⟩
  · rintro ⟨i, hi, hid, hb⟩
    refine ⟨i, hi, o.blockerId, StringSet.mem_filter.mpr hb, ?_⟩
    rw [hid]

/-- The dependents of an id are the items that wait for it. -/
def Reversed (g : Graph) : Prop := ∀ id b, id ∈ g.dependentsOf b ↔ b ∈ g.blockersOf id

/-- What a graph built from items says. -/
structure Built (items : List Item) (completed : StringSet) (policy : OrphanPolicy) (g : Graph) : Prop where
  nodup : (items.map (·.id)).Nodup
  ids_perm : g.ids.Perm (items.map (·.id))
  mem_entries : ∀ e, e ∈ g.entries ↔ e.1 ∈ items ∧ e.2 = effectiveBlockers items completed policy e.1
  external : g.external = completed
  policy_eq : g.policy = policy
  mem_orphans : ∀ o, o ∈ g.orphans ↔ ∃ i ∈ items, i.id = o.itemId ∧
    o.blockerId ∈ declaredBlockers items i ∧ isOrphan items completed o.blockerId = true
  reversed : g.Reversed

/-! ### Looking items up -/

/-- Of entries with different keys, each is found by its key. -/
theorem find?_eq_some_of_nodup {α : Type} (key : α → String) {l : List α} (hn : (l.map key).Nodup) {a : α}
    (ha : a ∈ l) : l.find? (key · == key a) = some a := by
  induction l with
  | nil => simp at ha
  | cons b r ih =>
    obtain ⟨hb, hr⟩ := List.nodup_cons.mp hn
    rcases List.mem_cons.mp ha with rfl | ha
    · simp
    · have hne : key b ≠ key a := fun h => hb (List.mem_map.mpr ⟨a, ha, h.symm⟩)
      simp [hne, ih hr ha]

theorem eq_of_id_eq (hn : (items.map (·.id)).Nodup) {i i' : Item} (hi : i ∈ items) (hi' : i' ∈ items)
    (h : i.id = i'.id) : i = i' := by
  have hfind := find?_eq_some_of_nodup (·.id) hn hi
  rw [h, find?_eq_some_of_nodup (·.id) hn hi'] at hfind
  exact (Option.some.inj hfind).symm

theorem mem_declaredBlockers_iff (hn : (items.map (·.id)).Nodup) {i : Item} (hi : i ∈ items) {b : String} :
    b ∈ declaredBlockers items i ↔ Declared items i.id b := by
  rw [mem_declaredBlockers]
  constructor
  · intro h
    exact ⟨i, hi, rfl, h⟩
  · rintro ⟨j, hj, hid, h⟩
    rwa [eq_of_id_eq hn hj hi hid] at h

theorem find?_eq_none_of_not_mem {α : Type} (key : α → String) {l : List α} {id : String} (h : id ∉ l.map key) :
    l.find? (key · == id) = none := by
  refine List.find?_eq_none.mpr fun a ha => ?_
  have hne : key a ≠ id := fun he => h (List.mem_map.mpr ⟨a, ha, he⟩)
  simpa using hne

theorem blockersOf_eq (hn : g.ids.Nodup) {e : Item × StringSet} (he : e ∈ g.entries) :
    g.blockersOf e.1.id = e.2 := by
  have hfind : g.entry? e.1.id = some e := find?_eq_some_of_nodup (fun e : Item × StringSet => e.1.id) hn he
  rw [blockersOf, hfind]

theorem mem_blockersOf_iff_entry (hn : g.ids.Nodup) {id b : String} :
    b ∈ g.blockersOf id ↔ ∃ e ∈ g.entries, e.1.id = id ∧ b ∈ e.2 := by
  constructor
  · intro h
    unfold blockersOf entry? at h
    split at h
    · next e he => exact ⟨e, List.mem_of_find?_eq_some he, by simpa using List.find?_some he, h⟩
    · exact absurd h StringSet.not_mem_empty
  · rintro ⟨e, he, rfl, hb⟩
    rwa [blockersOf_eq hn he]

theorem items_map_id : g.items.map (·.id) = g.ids := by
  simp [ids, items, Function.comp_def]

theorem mem_ids {id : String} : id ∈ g.ids ↔ ∃ i ∈ g.items, i.id = id := by
  rw [← items_map_id, List.mem_map]

theorem ids_of_mem_items {i : Item} (hi : i ∈ g.items) : i.id ∈ g.ids := mem_ids.mpr ⟨i, hi, rfl⟩

theorem isDone_iff {done : StringSet} {id : String} :
    g.isDone done id = true ↔ id ∈ done ∨ id ∈ g.external := by
  simp [isDone, ← StringSet.contains_iff]

theorem mem_ready (hn : g.ids.Nodup) {done : StringSet} {i : Item} :
    i ∈ g.ready done ↔ i ∈ g.items ∧ g.isDone done i.id = false ∧
      ∀ b ∈ g.blockersOf i.id, g.isDone done b = true := by
  simp only [ready, items, List.mem_map, List.mem_filter, Bool.and_eq_true, Bool.not_eq_true', StringSet.all,
    List.all_eq_true]
  constructor
  · rintro ⟨e, ⟨he, hd, hb⟩, rfl⟩
    exact ⟨⟨e, he, rfl⟩, hd, by rw [blockersOf_eq hn he]; exact hb⟩
  · rintro ⟨⟨e, he, rfl⟩, hd, hb⟩
    exact ⟨e, ⟨he, hd, by rw [blockersOf_eq hn he] at hb; exact hb⟩, rfl⟩

theorem ready_sublist {done : StringSet} : (g.ready done).Sublist g.items :=
  List.filter_sublist.map _

theorem build_eq_ok_iff : build items completed policy = .ok g ↔
    (items.map (·.id)).Nodup ∧ g = declared items completed policy := by
  rw [build_eq]
  cases h : firstRepeated [] (items.map (·.id)) with
  | some id =>
    have hnot : ¬ (items.map (·.id)).Nodup := fun hn => by
      cases h.symm.trans (firstRepeated_eq_none.mpr ⟨hn, by simp⟩)
    simp [hnot]
  | none => simp [(firstRepeated_eq_none.mp h).1, eq_comm]

theorem declared_built (hn : (items.map (·.id)).Nodup) :
    Built items completed policy (declared items completed policy) := by
  have hp : (Item.inOrder items).Perm items := Item.inOrder_perm items
  have hids : (declared items completed policy).ids.Perm (items.map (·.id)) := by
    simpa [declared, ids, Function.comp_def] using hp.map (·.id)
  have hentries : ∀ e, e ∈ (declared items completed policy).entries ↔
      e.1 ∈ items ∧ e.2 = effectiveBlockers items completed policy e.1 := by
    rintro ⟨i, s⟩
    simp only [declared, List.mem_map, Prod.mk.injEq]
    constructor
    · rintro ⟨j, hj, rfl, rfl⟩
      exact ⟨hp.mem_iff.mp hj, rfl⟩
    · rintro ⟨hi, rfl⟩
      exact ⟨i, hp.mem_iff.mpr hi, rfl, rfl⟩
  refine ⟨hn, hids, hentries, rfl, rfl, fun o => mem_orphansOf, fun id b => ?_⟩
  refine mem_setAt_turned.trans ?_
  rw [mem_blockersOf_iff_entry (hids.nodup_iff.mpr hn)]
  simp only [hentries, List.mem_map, hp.mem_iff]
  constructor
  · rintro ⟨-, ⟨i, hi, rfl⟩, rfl, hb⟩
    exact ⟨(i, _), ⟨hi, rfl⟩, rfl, hb⟩
  · rintro ⟨e, ⟨hi, hs⟩, hid, hb⟩
    exact ⟨(e.1.id, e.2), ⟨e.1, hi, by rw [hs]⟩, hid.symm, hb⟩

theorem built_of_build (h : build items completed policy = .ok g) : Built items completed policy g := by
  obtain ⟨hn, rfl⟩ := build_eq_ok_iff.mp h
  exact declared_built hn

theorem build_eq_ok_of_nodup (hn : (items.map (·.id)).Nodup) :
    ∃ g, build items completed policy = .ok g := ⟨_, build_eq_ok_iff.mpr ⟨hn, rfl⟩⟩

namespace Built

theorem ids_nodup (h : Built items completed policy g) : g.ids.Nodup := h.ids_perm.nodup_iff.mpr h.nodup

theorem mem_items (h : Built items completed policy g) {i : Item} : i ∈ g.items ↔ i ∈ items := by
  simp only [Graph.items, List.mem_map]
  constructor
  · rintro ⟨e, he, rfl⟩
    exact ((h.mem_entries e).mp he).1
  · intro hi
    exact ⟨(i, effectiveBlockers items completed policy i), (h.mem_entries _).mpr ⟨hi, rfl⟩, rfl⟩

theorem blockersOf (h : Built items completed policy g) {i : Item} (hi : i ∈ items) :
    g.blockersOf i.id = effectiveBlockers items completed policy i :=
  blockersOf_eq h.ids_nodup ((h.mem_entries (i, _)).mpr ⟨hi, rfl⟩)

theorem mem_blockersOf (h : Built items completed policy g) {i : Item} (hi : i ∈ items) {b : String} :
    b ∈ g.blockersOf i.id ↔ Awaits items completed policy i b := by
  rw [h.blockersOf hi, mem_effectiveBlockers]

theorem isDone_iff (h : Built items completed policy g) {id : String} :
    g.isDone completed id = true ↔ id ∈ completed := by
  rw [Graph.isDone_iff, h.external, or_self]

theorem orphan_not_mem_ids (h : Built items completed policy g) {o : Orphan} (ho : o ∈ g.orphans) :
    o.blockerId ∉ g.ids := by
  obtain ⟨i, -, -, -, hb⟩ := (h.mem_orphans o).mp ho
  rw [h.ids_perm.mem_iff]
  simpa using (isOrphan_iff.mp hb).1

theorem orphan_not_mem_completed (h : Built items completed policy g) {o : Orphan} (ho : o ∈ g.orphans) :
    o.blockerId ∉ completed := by
  obtain ⟨i, -, -, -, hb⟩ := (h.mem_orphans o).mp ho
  exact (isOrphan_iff.mp hb).2

theorem orphan_mem_blockersOf (h : Built items completed .block g) {o : Orphan} (ho : o ∈ g.orphans) :
    o.blockerId ∈ g.blockersOf o.itemId := by
  obtain ⟨i, hi, hid, hb, -⟩ := (h.mem_orphans o).mp ho
  rw [← hid, h.blockersOf hi]
  exact hb

end Built

end Graph

end WorkWaves
