import Mathlib.Logic.Relation
import WorkWaves.Proofs.Graph.Bare

/-!
# How items are presented does not matter

Items may be listed in another order, and what one of them blocks may be declared by the other one, by both or by
either (`Restated`). All of that says the same about who waits for whom (`SameDemands`). As the ids are all different,
the items sort alike, so the graphs differ in the declarations of their items only (`bare_eq_of_sameDemands`), and
none of their answers does (`answers_of_restated`).
-/

namespace WorkWaves

namespace Item

variable {i : Item} {id b x : String}

/-- Has the items with an id wait for another one. -/
def awaiting (id b : String) (i : Item) : Item :=
  if i.id = id then { i with blockedBy := i.blockedBy.insert b } else i

/-- Takes back that the items with an id block another one. -/
def releasing (id b : String) (i : Item) : Item :=
  if i.id = id then { i with blocks := i.blocks.erase b } else i

theorem id_eq_of_bare_eq {j : Item} (h : i.bare = j.bare) : i.id = j.id := by
  simpa using congrArg Item.id h

@[simp] theorem awaiting_id : (i.awaiting id b).id = i.id := by
  unfold awaiting
  split <;> rfl

@[simp] theorem awaiting_blocks : (i.awaiting id b).blocks = i.blocks := by
  unfold awaiting
  split <;> rfl

@[simp] theorem awaiting_bare : (i.awaiting id b).bare = i.bare := by
  unfold awaiting
  split <;> rfl

theorem mem_awaiting_blockedBy : x ∈ (i.awaiting id b).blockedBy ↔ (i.id = id ∧ x = b) ∨ x ∈ i.blockedBy := by
  unfold awaiting
  split
  · next h => simp [StringSet.mem_insert, h]
  · next h => simp [h]

@[simp] theorem releasing_id : (i.releasing id b).id = i.id := by
  unfold releasing
  split <;> rfl

@[simp] theorem releasing_blockedBy : (i.releasing id b).blockedBy = i.blockedBy := by
  unfold releasing
  split <;> rfl

@[simp] theorem releasing_bare : (i.releasing id b).bare = i.bare := by
  unfold releasing
  split <;> rfl

theorem mem_releasing_blocks : x ∈ (i.releasing id b).blocks ↔ x ∈ i.blocks ∧ ¬ (i.id = id ∧ x = b) := by
  unfold releasing
  split
  · next h => simp [StringSet.mem_erase, h]
  · next h => simp [h]

end Item

/-- The same items in another order, or with what one of them blocks declared by the other one too, or instead. -/
inductive Restated : List Item → List Item → Prop
  | perm {items items' : List Item} (h : items.Perm items') : Restated items items'
  | both {items : List Item} {a b : Item} (ha : a ∈ items) (hb : b ∈ items) (h : b.id ∈ a.blocks) :
    Restated items (items.map (Item.awaiting b.id a.id))
  | instead {items : List Item} {a b : Item} (ha : a ∈ items) (hb : b ∈ items) (h : b.id ∈ a.blocks) :
    Restated items (items.map fun i => (i.awaiting b.id a.id).releasing a.id b.id)

/-- Lists of items that differ in their order and in their declarations only, and declare the same. -/
structure SameDemands (items items' : List Item) : Prop where
  bare : (items.map Item.bare).Perm (items'.map Item.bare)
  declared : ∀ id b, Declared items id b ↔ Declared items' id b

variable {items items' : List Item} {completed : StringSet} {policy : OrphanPolicy} {i i' : Item} {id b : String}

theorem declared_map {f : Item → Item} (hid : ∀ i, (f i).id = i.id) : Declared (items.map f) id b ↔
    ∃ i ∈ items, i.id = id ∧ (b ∈ (f i).blockedBy ∨ ∃ j ∈ items, j.id = b ∧ id ∈ (f j).blocks) := by
  constructor
  · rintro ⟨_, hmem, hii, h⟩
    obtain ⟨i, hi, rfl⟩ := List.mem_map.mp hmem
    refine ⟨i, hi, (hid i).symm.trans hii, h.imp_right ?_⟩
    rintro ⟨_, hmem, hjj, h⟩
    obtain ⟨j, hj, rfl⟩ := List.mem_map.mp hmem
    exact ⟨j, hj, (hid j).symm.trans hjj, h⟩
  · rintro ⟨i, hi, hii, h⟩
    refine ⟨f i, List.mem_map_of_mem hi, (hid i).trans hii, h.imp_right ?_⟩
    rintro ⟨j, hj, hjj, h⟩
    exact ⟨f j, List.mem_map_of_mem hj, (hid j).trans hjj, h⟩

theorem Restated.sameDemands (h : Restated items items') : SameDemands items items' := by
  cases h with
  | perm h =>
    refine ⟨h.map _, fun id b => ?_⟩
    simp only [Declared, h.mem_iff]
  | @both a b ha hb h =>
    refine ⟨by simp [Function.comp_def], fun id x => ?_⟩
    rw [declared_map fun i => Item.awaiting_id]
    simp only [Item.mem_awaiting_blockedBy, Item.awaiting_blocks]
    constructor
    · rintro ⟨i, hi, hid, hx | hx⟩
      · exact ⟨i, hi, hid, .inl (.inr hx)⟩
      · exact ⟨i, hi, hid, .inr hx⟩
    · rintro ⟨i, hi, rfl, (⟨hib, rfl⟩ | hx) | hx⟩
      · exact ⟨i, hi, rfl, .inr ⟨a, ha, rfl, hib ▸ h⟩⟩
      · exact ⟨i, hi, rfl, .inl hx⟩
      · exact ⟨i, hi, rfl, .inr hx⟩
  | @instead a b ha hb h =>
    refine ⟨by simp [Function.comp_def], fun id x => ?_⟩
    rw [declared_map fun i => Item.releasing_id.trans Item.awaiting_id]
    simp only [Item.releasing_blockedBy, Item.mem_awaiting_blockedBy, Item.mem_releasing_blocks, Item.awaiting_id,
      Item.awaiting_blocks]
    constructor
    · rintro ⟨i, hi, rfl, hx | ⟨j, hj, rfl, hx⟩⟩
      · exact ⟨i, hi, rfl, .inl (.inr hx)⟩
      · -- What is taken back is the one declaration that was made on the other side.
        by_cases hab : j.id = a.id ∧ i.id = b.id
        · exact ⟨i, hi, rfl, .inl (.inl ⟨hab.2, hab.1⟩)⟩
        · exact ⟨i, hi, rfl, .inr ⟨j, hj, rfl, hx, hab⟩⟩
    · rintro ⟨i, hi, rfl, (⟨hib, rfl⟩ | hx) | ⟨j, hj, hjx, hx, -⟩⟩
      · exact ⟨i, hi, rfl, .inr ⟨a, ha, rfl, hib ▸ h⟩⟩
      · exact ⟨i, hi, rfl, .inl hx⟩
      · exact ⟨i, hi, rfl, .inr ⟨j, hj, hjx, hx⟩⟩

theorem sameDemands_of_eqvGen (h : Relation.EqvGen Restated items items') : SameDemands items items' := by
  induction h with
  | rel _ _ h => exact h.sameDemands
  | refl items => exact ⟨.refl _, fun _ _ => .rfl⟩
  | symm _ _ _ ih => exact ⟨ih.bare.symm, fun id b => (ih.declared id b).symm⟩
  | trans _ _ _ _ _ ih ih' => exact ⟨ih.bare.trans ih'.bare, fun id b => (ih.declared id b).trans (ih'.declared id b)⟩

/-- Items in an order that tells ids apart are in one order only. -/
theorem eq_of_sorted {le : Item → Item → Prop} (hn : (items.map (·.id)).Nodup) (hp : items.Perm items')
    (hanti : ∀ a b, le a b → le b a → a.id = b.id) (h : items.Pairwise le) (h' : items'.Pairwise le) :
    items = items' :=
  hp.eq_of_pairwise (fun a b ha hb hab hba => Graph.eq_of_id_eq hn ha (hp.mem_iff.mpr hb) (hanti a b hab hba)) h h'

/-- What agrees on things that look alike agrees along lists that look alike. -/
theorem map_eq_map_of {α β γ : Type} {f : α → β} {k k' : α → γ} {l l' : List α} (h : l.map f = l'.map f)
    (hk : ∀ a ∈ l, ∀ b ∈ l', f a = f b → k a = k' b) : l.map k = l'.map k' := by
  induction l generalizing l' with
  | nil =>
    rw [List.map_eq_nil_iff.mp h.symm]
    rfl
  | cons a l ih =>
    obtain ⟨b, l', rfl, hab, hl⟩ := List.map_eq_cons_iff.mp h.symm
    rw [List.map_cons, List.map_cons, hk a (List.mem_cons_self ..) b (List.mem_cons_self ..) hab.symm,
      ih hl.symm fun a ha b hb => hk a (List.mem_cons_of_mem _ ha) b (List.mem_cons_of_mem _ hb)]

namespace SameDemands

theorem ids_perm (h : SameDemands items items') : (items.map (·.id)).Perm (items'.map (·.id)) := by
  simpa [Function.comp_def] using h.bare.map (·.id)

theorem isOrphan_eq (h : SameDemands items items') (completed : StringSet) :
    Graph.isOrphan items completed = Graph.isOrphan items' completed := by
  have hids : ∀ b, (∀ j ∈ items, j.id ≠ b) ↔ ∀ j ∈ items', j.id ≠ b := fun b => by
    simpa using not_congr (h.ids_perm.mem_iff (a := b))
  funext b
  rw [Bool.eq_iff_iff, Graph.isOrphan_iff, Graph.isOrphan_iff, hids]

end SameDemands

section Same

variable (h : SameDemands items items') (hn : (items.map (·.id)).Nodup)

include h hn

theorem SameDemands.declaredBlockers_eq (hi : i ∈ items) (hi' : i' ∈ items') (hid : i.id = i'.id) :
    Graph.declaredBlockers items i = Graph.declaredBlockers items' i' := by
  refine StringSet.ext_mem fun b => ?_
  rw [Graph.mem_declaredBlockers_iff hn hi, Graph.mem_declaredBlockers_iff (h.ids_perm.nodup_iff.mp hn) hi', hid]
  exact h.declared i'.id b

theorem SameDemands.effectiveBlockers_eq (hi : i ∈ items) (hi' : i' ∈ items') (hid : i.id = i'.id) :
    Graph.effectiveBlockers items completed policy i = Graph.effectiveBlockers items' completed policy i' := by
  unfold Graph.effectiveBlockers
  rw [h.declaredBlockers_eq hn hi hi' hid, h.isOrphan_eq]

/-- Sorted in any order that tells ids apart, the items look alike. -/
theorem SameDemands.map_bare_eq (le : Item → Item → Prop) {l l' : List Item} (hl : l.Perm items) (hl' : l'.Perm items')
    (hanti : ∀ a b, le a b → le b a → a.id = b.id) (hle : (l.map Item.bare).Pairwise le)
    (hle' : (l'.map Item.bare).Pairwise le) : l.map Item.bare = l'.map Item.bare := by
  have hids : ((l.map Item.bare).map (·.id)).Nodup := by
    simpa [Function.comp_def] using (hl.map (·.id)).nodup_iff.mpr hn
  exact eq_of_sorted hids (((hl.map _).trans h.bare).trans (hl'.map _).symm) hanti hle hle'

theorem SameDemands.inOrder_bare_eq :
    (Item.inOrder items).map Item.bare = (Item.inOrder items').map Item.bare := by
  refine h.map_bare_eq hn Item.InPlace (Item.inOrder_perm items) (Item.inOrder_perm items') ?_ ?_ ?_
  · intro a b hab hba
    rw [Item.inPlace_iff] at hab hba
    rcases hab with hab | ⟨he, hab⟩
    · omega
    · rcases hba with hba | ⟨-, hba⟩
      · omega
      · exact String.le_antisymm hab hba
  · rw [← Item.inOrder_map_bare]
    exact Item.inOrder_inPlace _
  · rw [← Item.inOrder_map_bare]
    exact Item.inOrder_inPlace _

theorem SameDemands.orphansOf_eq : Graph.orphansOf items completed = Graph.orphansOf items' completed := by
  have hsorted : ∀ l : List Item, ((l.mergeSort fun a b => a.id ≤ b.id).map Item.bare).Pairwise (·.id ≤ ·.id) := by
    intro l
    have hl := @List.pairwise_mergeSort _ (fun a b : Item => decide (a.id ≤ b.id))
      (fun a b c hab hbc => by simpa using String.le_trans (by simpa using hab) (by simpa using hbc))
      (fun a b => by simpa using String.le_total a.id b.id) l
    exact List.pairwise_map.mpr (hl.imp fun hab => by simpa using hab)
  have hbare := h.map_bare_eq hn (·.id ≤ ·.id) (List.mergeSort_perm items _) (List.mergeSort_perm items' _)
    (fun a b hab hba => String.le_antisymm hab hba) (hsorted items) (hsorted items')
  rw [Graph.orphansOf, Graph.orphansOf, List.flatMap_def, List.flatMap_def, map_eq_map_of hbare]
  intro i hi i' hi' hii
  have hid : i.id = i'.id := Item.id_eq_of_bare_eq hii
  rw [Graph.orphansAt, Graph.orphansAt,
    h.declaredBlockers_eq hn (List.mem_mergeSort.mp hi) (List.mem_mergeSort.mp hi') hid, h.isOrphan_eq, hid]

/-- The graphs of two presentations differ in the declarations of their items only. -/
theorem bare_eq_of_sameDemands {g g' : Graph} (hg : Graph.build items completed policy = .ok g)
    (hg' : Graph.build items' completed policy = .ok g') : g'.bare = g.bare := by
  obtain ⟨-, rfl⟩ := Graph.build_eq_ok_iff.mp hg
  obtain ⟨-, rfl⟩ := Graph.build_eq_ok_iff.mp hg'
  have hentries : ((Item.inOrder items').map fun i =>
      (i.bare, Graph.effectiveBlockers items' completed policy i)) =
      (Item.inOrder items).map fun i => (i.bare, Graph.effectiveBlockers items completed policy i) := by
    refine (map_eq_map_of (h.inOrder_bare_eq hn) fun i hi i' hi' hii => ?_).symm
    rw [hii, h.effectiveBlockers_eq hn ((Item.inOrder_perm _).mem_iff.mp hi)
      ((Item.inOrder_perm _).mem_iff.mp hi') (Item.id_eq_of_bare_eq hii)]
  have hwaits := congrArg (List.map fun e : Item × StringSet => (e.1.id, e.2)) hentries
  simp only [List.map_map, Function.comp_def, Item.bare_id] at hwaits
  simp only [Graph.declared, Graph.bare, List.map_map, Function.comp_def, hentries, hwaits, h.orphansOf_eq hn]

end Same

/-- Planning does not depend on the order of the items, nor on which of two items declares that one waits for the
other: whatever is done, the graphs give the same answers, and their waves and plans hold the same ids. -/
theorem answers_of_restated (hn : (items.map (·.id)).Nodup) (h : Relation.EqvGen Restated items items')
    (completed : StringSet) (policy : OrphanPolicy) :
    ∃ g g', Graph.build items completed policy = .ok g ∧ Graph.build items' completed policy = .ok g' ∧
      g'.blockersOf = g.blockersOf ∧ g'.dependentsOf = g.dependentsOf ∧ g'.orphans = g.orphans ∧ g'.ids = g.ids ∧
      g'.cycles = g.cycles ∧ ∀ done, g'.blocked done = g.blocked done ∧
        (g'.waves done).map (List.map fun w => (w.index, w.ids)) =
          (g.waves done).map (List.map fun w => (w.index, w.ids)) ∧
        (Plan.build g' done).map (fun p => p.waves.map fun w => (w.ids, w.parentIndex, w.note)) =
          (Plan.build g done).map fun p => p.waves.map fun w => (w.ids, w.parentIndex, w.note) := by
  have hsame := sameDemands_of_eqvGen h
  obtain ⟨g, hg⟩ : ∃ g, Graph.build items completed policy = .ok g := Graph.build_eq_ok_of_nodup hn
  obtain ⟨g', hg'⟩ : ∃ g', Graph.build items' completed policy = .ok g' :=
    Graph.build_eq_ok_of_nodup (hsame.ids_perm.nodup_iff.mp hn)
  have hbare := bare_eq_of_sameDemands hsame hn hg hg'
  have horphans : g'.bare.orphans = g.bare.orphans := by rw [hbare]
  refine ⟨g, g', hg, hg', ?_, ?_, horphans, ?_, ?_, fun done => ⟨?_, ?_, ?_⟩⟩
  · funext id
    rw [← Graph.bare_blockersOf, hbare, Graph.bare_blockersOf]
  · funext id
    rw [← Graph.bare_dependentsOf, hbare, Graph.bare_dependentsOf]
  · rw [← Graph.bare_ids, hbare, Graph.bare_ids]
  · rw [← Graph.cycles_bare, hbare, Graph.cycles_bare]
  · rw [← Graph.blocked_bare, hbare, Graph.blocked_bare]
  · rw [← Graph.map_waves_bare, hbare, Graph.map_waves_bare]
  · rw [← Plan.map_build_bare, hbare, Plan.map_build_bare]

section Told

/-- `A` says that it blocks `B`; `B` waits for an orphan as well. -/
def toldByBlocker : List Item :=
  [{ id := "A", blocks := .ofList ["B"] }, { id := "B", blockedBy := .ofList ["gone"] },
    { id := "C", priority := ⟨0, by decide⟩ }]

/-- `B` says that it waits for `A`, and the items stand the other way round. -/
def toldByBlocked : List Item :=
  [{ id := "C", priority := ⟨0, by decide⟩ }, { id := "B", blockedBy := .ofList ["A", "gone"] }, { id := "A" }]

theorem toldByBlocked_restated : Relation.EqvGen Restated toldByBlocker toldByBlocked := by
  have hinstead : Restated toldByBlocker (toldByBlocker.map fun i => (i.awaiting "B" "A").releasing "A" "B") :=
    .instead (a := { id := "A", blocks := .ofList ["B"] }) (b := { id := "B", blockedBy := .ofList ["gone"] })
      (by decide) (by decide) (by decide)
  have hmap : (toldByBlocker.map fun i => (i.awaiting "B" "A").releasing "A" "B") = toldByBlocked.reverse := by decide
  rw [hmap] at hinstead
  exact .trans _ _ _ (.rel _ _ hinstead) (.rel _ _ (.perm (List.reverse_perm _)))

theorem answers_of_told : ∃ g g', Graph.build toldByBlocker ∅ .block = .ok g ∧
    Graph.build toldByBlocked ∅ .block = .ok g' ∧ g'.dependentsOf "A" = g.dependentsOf "A" ∧
      g'.blocked ∅ = g.blocked ∅ := by
  obtain ⟨g, g', hg, hg', -, hdependents, -, -, -, hdone⟩ :=
    answers_of_restated (by decide) toldByBlocked_restated ∅ .block
  exact ⟨g, g', hg, hg', congrFun hdependents "A", (hdone ∅).1⟩

end Told

end WorkWaves
