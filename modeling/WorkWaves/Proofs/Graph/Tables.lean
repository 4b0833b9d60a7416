import WorkWaves.Graph.Basic
import WorkWaves.Proofs.Item

/-!
# What the tables of a graph hold

Each table of a graph is filled by a loop over the one before. What a step of a loop enters does not depend on what
came by before it (`mem_announce`, `sift_eq`, `mem_turnRound`), so each loop leaves the same table in whatever order
the entries come, and the graph of items with different ids holds what is declared of them, less the orphans where
these are let through (`buildIn_eq`).
-/

namespace WorkWaves

/-- What holds after a loop whose steps bring it about one by one. -/
theorem foldl_iff {α β : Type} {step : β → α → β} {P : β → Prop} {Q : α → Prop}
    (hstep : ∀ s a, P (step s a) ↔ P s ∨ Q a) {l : List α} {s : β} :
    P (l.foldl step s) ↔ P s ∨ ∃ a ∈ l, Q a := by
  induction l generalizing s with
  | nil => simp
  | cons a l ih =>
    rw [List.foldl_cons, ih, hstep, or_assoc]
    simp

namespace StringMap

variable {α : Type} {m n : StringMap α} {k x : String}

theorem nodup_entries (m : StringMap α) : (m.entries.map (·.1)).Nodup := m.increasing.imp String.ne_of_lt

theorem contains_iff : m.contains k = true ↔ ∃ v, m.get? k = some v := Option.isSome_iff_exists

theorem contains_insert {v : α} : (m.insert k v).contains x = true ↔ x = k ∨ m.contains x = true := by
  unfold contains
  rw [get?_insert]
  by_cases h : x = k <;> simp [h]

theorem setAt_insert {m : StringMap StringSet} {s : StringSet} :
    (m.insert k s).setAt x = if x = k then s else m.setAt x := by
  unfold setAt
  rw [get?_insert]
  split <;> rfl

/-- Maps with the same values under the same keys are the same. -/
theorem ext_get? (h : ∀ k, m.get? k = n.get? k) : m = n := by
  have hmem (e : String × α) : e ∈ m.entries ↔ e ∈ n.entries := by rw [mem_entries, mem_entries, h]
  have hperm : m.entries.Perm n.entries :=
    (List.perm_ext_iff_of_nodup (.of_map _ m.nodup_entries) (.of_map _ n.nodup_entries)).mpr hmem
  refine ext (hperm.eq_of_pairwise (fun a b _ _ hab hba => ?_) (List.pairwise_map.mp m.increasing)
    (List.pairwise_map.mp n.increasing))
  exact absurd (String.lt_trans hab hba) (String.lt_irrefl a.1)

/-- Maps to sets with the same elements under the same keys are the same. -/
theorem ext_setAt {m n : StringMap StringSet} (hkeys : ∀ k, m.contains k = true ↔ n.contains k = true)
    (h : ∀ k, m.contains k = true → ∀ x, x ∈ m.setAt k ↔ x ∈ n.setAt k) : m = n := by
  refine ext_get? fun k => ?_
  have hk := hkeys k
  rw [contains_iff, contains_iff] at hk
  cases hm : m.get? k with
  | none =>
    refine (Option.eq_none_iff_forall_ne_some.mpr fun v hn => ?_).symm
    obtain ⟨w, hw⟩ := hk.mpr ⟨v, hn⟩
    cases hm.symm.trans hw
  | some s =>
    obtain ⟨t, hn⟩ := hk.mp ⟨s, hm⟩
    have hst : ∀ x, x ∈ s ↔ x ∈ t := by
      simpa [setAt, hm, hn] using h k (contains_iff.mpr ⟨s, hm⟩)
    rw [hn, StringSet.ext_mem hst]

/-- A loop that writes a value under each key of a map leaves the map of these values. -/
theorem foldl_insert_of_perm {l : List (String × α)} (hl : l.Perm n.entries)
    (hkeys : ∀ k, m.contains k = true → n.contains k = true) : l.foldl (fun m e => m.insert e.1 e.2) m = n := by
  refine ext_get? fun k => ?_
  have hn : (l.reverse.map (·.1)).Nodup :=
    (((List.reverse_perm l).trans hl).map (·.1)).nodup_iff.mpr n.nodup_entries
  rw [get?_foldl_insert]
  cases hk : n.get? k with
  | some v =>
    have hv : (k, v) ∈ l.reverse := List.mem_reverse.mpr (hl.mem_iff.mpr (mem_entries.mpr hk))
    rw [lookup_eq_some_of_mem hn hv, Option.some_or]
  | none =>
    have hnone : l.reverse.lookup k = none := by
      refine List.lookup_eq_none_iff.mpr fun e he => bne_iff_ne.mpr fun hke => ?_
      have he' : e ∈ n.entries := hl.mem_iff.mp (List.mem_reverse.mp he)
      cases hk.symm.trans (hke ▸ mem_entries.mp he')
    rw [hnone, Option.none_or]
    refine Option.eq_none_iff_forall_ne_some.mpr fun v hv => ?_
    obtain ⟨w, hw⟩ := contains_iff.mp (hkeys k (contains_iff.mpr ⟨v, hv⟩))
    cases hk.symm.trans hw

theorem ofList_of_perm {l : List (String × α)} (hl : l.Perm n.entries) : ofList l = n :=
  foldl_insert_of_perm hl fun k hk => by
    obtain ⟨v, hv⟩ := contains_iff.mp hk
    cases hv

/-- The entries of a map are those of the list that it was made from, if these have different keys. -/
theorem entries_ofList {l : List (String × α)} (hn : (l.map (·.1)).Nodup) : (ofList l).entries.Perm l := by
  refine (List.perm_ext_iff_of_nodup (.of_map _ (nodup_entries _)) (.of_map _ hn)).mpr fun e => ?_
  rw [mem_entries]
  constructor
  · intro he
    rw [get?_ofList] at he
    obtain ⟨pre, post, hl, -⟩ := List.lookup_eq_some_iff.mp he
    exact List.mem_reverse.mp (hl ▸ List.mem_append_right pre (List.mem_cons_self ..))
  · exact get?_ofList_of_mem hn

end StringMap

namespace Graph

variable {items : List Item} {completed : StringSet} {policy : OrphanPolicy} {turns : Turns} {id b k x : String}

/-! ### What is declared -/

/-- What an item waits for by its own word or by that of another item. -/
def declaredBlockers (items : List Item) (i : Item) : StringSet :=
  i.blockedBy ∪ .ofList ((items.filter fun j => j.blocks.contains i.id).map (·.id))

/-- Whether an id is neither an item nor completed. -/
def isOrphan (items : List Item) (completed : StringSet) (id : String) : Bool :=
  !items.any (·.id == id) && !completed.contains id

/-- What an item waits for under a policy. -/
def effectiveBlockers (items : List Item) (completed : StringSet) (policy : OrphanPolicy)
    (i : Item) : StringSet :=
  match policy with
  | .block => declaredBlockers items i
  | .satisfy => (declaredBlockers items i).filter fun b => !isOrphan items completed b

/-- The orphans that an item waits for. -/
def orphansAt (items : List Item) (completed : StringSet) (i : Item) : List Orphan :=
  ((declaredBlockers items i).filter (isOrphan items completed)).toList.map (⟨i.id, ·⟩)

/-- The orphans that items wait for, ordered by item and then by blocker. -/
def orphansOf (items : List Item) (completed : StringSet) : List Orphan :=
  (items.mergeSort fun a b => a.id ≤ b.id).flatMap (orphansAt items completed)

/-- The first id of a list that occurred before in it. -/
def firstRepeated : List String → List String → Option String
  | _, [] => none
  | seen, a :: r => if a ∈ seen then some a else firstRepeated (a :: seen) r

/-- The map of what is said of each item. -/
def table {α : Type} (items : List Item) (f : Item → α) : StringMap α := .ofList (items.map fun i => (i.id, f i))

/-- The graph that goes by what is declared. -/
def declared (items : List Item) (completed : StringSet) (policy : OrphanPolicy) : Graph where
  entries := (Item.inOrder items).map fun i => (i, effectiveBlockers items completed policy i)
  dependents := ((Item.inOrder items).map fun i => (i.id, effectiveBlockers items completed policy i)).foldl turnRound ∅
  external := completed
  orphans := orphansOf items completed
  policy := policy

theorem mem_declaredBlockers {i : Item} {b : String} :
    b ∈ declaredBlockers items i ↔ b ∈ i.blockedBy ∨ ∃ j ∈ items, j.id = b ∧ i.id ∈ j.blocks := by
  simp only [declaredBlockers, StringSet.mem_union, StringSet.mem_ofList, List.mem_map, List.mem_filter,
    StringSet.contains_iff]
  constructor
  · rintro (h | ⟨j, ⟨hj, hi⟩, rfl⟩)
    · exact .inl h
    · exact .inr ⟨j, hj, rfl, hi⟩
  · rintro (h | ⟨j, hj, rfl, hi⟩)
    · exact .inl h
    · exact .inr ⟨j, ⟨hj, hi⟩, rfl⟩

theorem isOrphan_iff {b : String} :
    isOrphan items completed b = true ↔ (∀ j ∈ items, j.id ≠ b) ∧ b ∉ completed := by
  simp [isOrphan, ← StringSet.contains_iff]

/-! ### Tables -/

section
variable {α : Type} {f : Item → α} (hn : (items.map (·.id)).Nodup)
include hn

theorem entries_table : (table items f).entries.Perm (items.map fun i => (i.id, f i)) := by
  refine StringMap.entries_ofList ?_
  rwa [List.map_map, show ((fun e : String × α => e.1) ∘ fun i => (i.id, f i)) = fun i : Item => i.id from rfl]

theorem turns_table (turns : Turns) : (turns.of (table items f)).Perm (items.map fun i => (i.id, f i)) :=
  (turns.perm _).trans (entries_table hn)

theorem get?_table {v : α} : (table items f).get? k = some v ↔ ∃ i ∈ items, i.id = k ∧ f i = v := by
  rw [← StringMap.mem_entries, (entries_table hn).mem_iff]
  simp

theorem get?_table_of_mem {i : Item} (hi : i ∈ items) : (table items f).get? i.id = some (f i) :=
  (get?_table hn).mpr ⟨i, hi, rfl, rfl⟩

theorem get?_table_eq_none : (table items f).get? k = none ↔ ∀ i ∈ items, i.id ≠ k := by
  rw [Option.eq_none_iff_forall_ne_some]
  simp only [ne_eq, get?_table hn, not_exists, not_and]
  exact ⟨fun h i hi hk => h (f i) i hi hk rfl, fun h _ i hi hk _ => h i hi hk⟩

theorem eq_table {l : List (String × α)} (hl : l.Perm (items.map fun i => (i.id, f i))) : .ofList l = table items f :=
  StringMap.ofList_of_perm (hl.trans (entries_table hn).symm)

end

theorem setAt_table (hn : (items.map (·.id)).Nodup) {f : Item → StringSet} {i : Item} (hi : i ∈ items) :
    (table items f).setAt i.id = f i := by
  rw [StringMap.setAt, get?_table_of_mem hn hi, Option.getD_some]

/-! ### The items by their ids -/

theorem firstRepeated_eq_none {seen l : List String} :
    firstRepeated seen l = none ↔ l.Nodup ∧ ∀ a ∈ l, a ∉ seen := by
  induction l generalizing seen with
  | nil => simp [firstRepeated]
  | cons a r ih =>
    unfold firstRepeated
    split
    · next h => simp [h]
    · next h =>
      rw [ih, List.nodup_cons]
      constructor
      · rintro ⟨hn, hr⟩
        refine ⟨⟨fun ha => hr a ha (by simp), hn⟩, fun x hx => ?_⟩
        rcases List.mem_cons.mp hx with rfl | hx
        · exact h
        · exact fun hs => hr x hx (List.mem_cons_of_mem _ hs)
      · rintro ⟨⟨ha, hn⟩, hr⟩
        refine ⟨hn, fun x hx hs => ?_⟩
        rcases List.mem_cons.mp hs with rfl | hs
        · exact ha hx
        · exact hr x (List.mem_cons_of_mem _ hx) hs

/-- Items are filed until an id comes that another one has. -/
theorem file_eq {arena : StringMap Item} {seen : List String} (hseen : ∀ id, arena.contains id = true ↔ id ∈ seen) :
    file items arena = match firstRepeated seen (items.map (·.id)) with
      | some id => .error (.duplicateId id)
      | none => .ok ((items.map fun i => (i.id, i)).foldl (fun m e => m.insert e.1 e.2) arena) := by
  induction items generalizing arena seen with
  | nil => rfl
  | cons i rest ih =>
    rw [file, List.map_cons, firstRepeated]
    by_cases hi : i.id ∈ seen
    · rw [if_pos ((hseen i.id).mpr hi), if_pos hi]
    · have hseen' (id : String) : (arena.insert i.id i).contains id = true ↔ id ∈ i.id :: seen := by
        rw [StringMap.contains_insert, hseen, List.mem_cons]
      rw [if_neg (mt (hseen i.id).mp hi), if_neg hi, ih hseen']
      rfl

/-! ### What waits -/

theorem get?_hold {m : StringMap StringSet} :
    (hold b m id).get? k = (m.get? k).map fun waits => if id = k then waits.insert b else waits := by
  unfold hold
  split
  · next waits hm =>
    rw [StringMap.get?_insert]
    by_cases h : k = id
    · rw [if_pos h, h, hm, Option.map_some, if_pos rfl]
    · simp [h, Ne.symm h]
  · next hm =>
    by_cases h : id = k
    · rw [← h, hm, Option.map_none]
    · simp [h]

theorem get?_foldl_hold {l : List String} {m : StringMap StringSet} :
    (l.foldl (hold b) m).get? k = (m.get? k).map fun waits => if k ∈ l then waits.insert b else waits := by
  have htwice (waits : StringSet) : (waits.insert b).insert b = waits.insert b :=
    StringSet.ext_mem fun x => by simp [StringSet.mem_insert]
  induction l generalizing m with
  | nil => simp
  | cons id l ih =>
    rw [List.foldl_cons, ih, get?_hold, Option.map_map]
    congr 1
    funext waits
    by_cases h : id = k <;> by_cases hk : k ∈ l <;> simp [h, hk, htwice, eq_comm (a := k)]

/-- What all items together have an item wait for. -/
theorem get?_foldl_announce {l : List (String × Item)} {m : StringMap StringSet} :
    (l.foldl (fun m e => announce m e.2) m).get? k = (m.get? k).map fun waits =>
      waits ∪ .ofList ((l.filter fun e => e.2.blocks.contains k).map (·.2.id)) := by
  induction l generalizing m with
  | nil =>
    have hempty (waits : StringSet) : waits ∪ .ofList [] = waits :=
      StringSet.ext_mem fun x => by simp [StringSet.mem_union, StringSet.mem_ofList]
    simp [hempty]
  | cons e l ih =>
    rw [List.foldl_cons, ih, announce, get?_foldl_hold, Option.map_map]
    congr 1
    funext waits
    refine StringSet.ext_mem fun x => ?_
    by_cases h : k ∈ e.2.blocks
    · have hc : e.2.blocks.contains k = true := StringSet.contains_iff.mpr h
      simp [← StringSet.mem_def, h, hc, StringSet.mem_union, StringSet.mem_insert, StringSet.mem_ofList, or_assoc, or_left_comm]
    · have hc : e.2.blocks.contains k = false := by rwa [← Bool.not_eq_true, StringSet.contains_iff]
      simp [← StringSet.mem_def, h, hc]

theorem foldl_announce (hn : (items.map (·.id)).Nodup) {l : List (String × Item)}
    (hl : l.Perm (items.map fun i => (i.id, i))) :
    l.foldl (fun m e => announce m e.2) (table items Item.blockedBy) = table items (declaredBlockers items) := by
  refine StringMap.ext_get? fun k => ?_
  rw [get?_foldl_announce]
  by_cases hk : ∃ i ∈ items, i.id = k
  · obtain ⟨i, hi, rfl⟩ := hk
    rw [get?_table_of_mem hn hi, get?_table_of_mem hn hi, Option.map_some]
    refine congrArg some (StringSet.ext_mem fun x => ?_)
    rw [mem_declaredBlockers]
    have hnames : (∃ e : String × Item, (e ∈ l ∧ i.id ∈ e.2.blocks) ∧ e.2.id = x) ↔
        ∃ j ∈ items, j.id = x ∧ i.id ∈ j.blocks := by
      simp only [hl.mem_iff, List.mem_map]
      constructor
      · rintro ⟨-, ⟨⟨j, hj, rfl⟩, hb⟩, hx⟩
        exact ⟨j, hj, hx, hb⟩
      · rintro ⟨j, hj, hx, hb⟩
        exact ⟨_, ⟨⟨j, hj, rfl⟩, hb⟩, hx⟩
    simpa [StringSet.mem_union, StringSet.mem_ofList, StringSet.contains_iff] using or_congr_right hnames
  · have hk' : ∀ i ∈ items, i.id ≠ k := fun i hi h => hk ⟨i, hi, h⟩
    rw [(get?_table_eq_none hn).mpr hk', (get?_table_eq_none hn).mpr hk', Option.map_none]

/-! ### The orphans -/

/-- What is left of what an item waits for. -/
def kept (isOrphan : String → Bool) (policy : OrphanPolicy) (waits : StringSet) : StringSet :=
  match policy with
  | .block => waits
  | .satisfy => waits.filter fun b => !isOrphan b

theorem foldl_record {l : List String} {s : StringSet × List Orphan} : l.foldl (record policy id) s =
    (match policy with
     | .block => s.1
     | .satisfy => s.1.filter fun b => !l.contains b, s.2 ++ l.map (⟨id, ·⟩)) := by
  induction l generalizing s with
  | nil =>
    refine Prod.ext ?_ (by simp)
    cases policy with
    | block => rfl
    | satisfy => exact StringSet.ext_mem fun x => by simp [StringSet.mem_filter]
  | cons b l ih =>
    rw [List.foldl_cons, ih]
    refine Prod.ext ?_ (by simp [record])
    cases policy with
    | block => rfl
    | satisfy =>
      refine StringSet.ext_mem fun x => ?_
      simp [record, StringSet.mem_filter, StringSet.mem_erase, and_assoc]

/-- The orphans of an item are recorded, and they are taken off where they are let through. -/
theorem sift_eq {isOrphan : String → Bool} {s : StringMap StringSet × List Orphan} {e : String × StringSet} :
    sift isOrphan policy s e =
      (s.1.insert e.1 (kept isOrphan policy e.2), s.2 ++ (e.2.filter isOrphan).toList.map (⟨e.1, ·⟩)) := by
  have hkept : (match policy with
      | .block => e.2
      | .satisfy => e.2.filter fun b => !(e.2.filter isOrphan).toList.contains b) = kept isOrphan policy e.2 := by
    cases policy with
    | block => rfl
    | satisfy =>
      refine StringSet.ext_mem fun x => ?_
      have hx : x ∈ (e.2.filter isOrphan).toList ↔ x ∈ e.2 ∧ isOrphan x = true := StringSet.mem_filter
      simp +contextual [kept, StringSet.mem_filter, hx]
  rw [sift, foldl_record, hkept]

theorem foldl_sift {isOrphan : String → Bool} {l : List (String × StringSet)}
    {s : StringMap StringSet × List Orphan} : l.foldl (sift isOrphan policy) s =
      ((l.map fun e => (e.1, kept isOrphan policy e.2)).foldl (fun m e => m.insert e.1 e.2) s.1,
        s.2 ++ l.flatMap fun e => (e.2.filter isOrphan).toList.map (⟨e.1, ·⟩)) := by
  induction l generalizing s with
  | nil => simp
  | cons e l ih => simp [ih, sift_eq]

/-- Sifting a table leaves what is kept of each set and records all the orphans. -/
theorem sift_table (hn : (items.map (·.id)).Nodup) (policy : OrphanPolicy) (isOrphan : String → Bool) {f : Item → StringSet}
    {l : List (String × StringSet)} (hl : l.Perm (items.map fun i => (i.id, f i))) :
    (l.foldl (sift isOrphan policy) (table items f, [])).1 = table items (fun i => kept isOrphan policy (f i)) ∧
    (l.foldl (sift isOrphan policy) (table items f, [])).2.Perm
      (items.flatMap fun i => ((f i).filter isOrphan).toList.map (⟨i.id, ·⟩)) := by
  rw [foldl_sift]
  constructor
  · refine StringMap.foldl_insert_of_perm ?_ fun k hk => ?_
    · refine (hl.map _).trans ?_
      rw [List.map_map]
      exact (entries_table hn).symm
    · obtain ⟨v, hv⟩ := StringMap.contains_iff.mp hk
      obtain ⟨i, hi, rfl, rfl⟩ := (get?_table hn).mp hv
      exact StringMap.contains_iff.mpr ⟨_, get?_table_of_mem hn hi⟩
  · rw [List.nil_append]
    refine (hl.flatMap_right _).trans ?_
    rw [List.flatMap_map]

end Graph

namespace Orphan

variable {o p : Orphan}

/-- The order of orphans: by item and then by blocker. -/
def Before (o p : Orphan) : Prop :=
  o.itemId < p.itemId ∨ o.itemId = p.itemId ∧ o.blockerId < p.blockerId

theorem atMost_iff : o.atMost p = true ↔ o.itemId < p.itemId ∨ o.itemId = p.itemId ∧ o.blockerId ≤ p.blockerId := by
  simp [atMost]

theorem Before.atMost (h : o.Before p) : o.atMost p = true :=
  atMost_iff.mpr (h.imp_right fun ⟨hi, hb⟩ => ⟨hi, String.not_lt.mp fun hlt =>
    String.lt_irrefl _ (String.lt_trans hb hlt)⟩)

theorem atMost_trans (o p q : Orphan) (hop : o.atMost p = true) (hpq : p.atMost q = true) : o.atMost q = true := by
  rw [atMost_iff] at *
  rcases hop with h | ⟨h, hb⟩ <;> rcases hpq with h' | ⟨h', hb'⟩
  · exact .inl (String.lt_trans h h')
  · exact .inl (h' ▸ h)
  · exact .inl (h ▸ h')
  · exact .inr ⟨h.trans h', String.le_trans hb hb'⟩

theorem atMost_total (o p : Orphan) : (o.atMost p || p.atMost o) = true := by
  rw [Bool.or_eq_true, atMost_iff, atMost_iff]
  by_cases h : o.itemId = p.itemId
  · rcases String.le_total o.blockerId p.blockerId with hb | hb
    · exact .inl (.inr ⟨h, hb⟩)
    · exact .inr (.inr ⟨h.symm, hb⟩)
  · by_cases hlt : o.itemId < p.itemId
    · exact .inl (.inl hlt)
    · exact .inr (.inl (StringSet.lt_of_not_lt_of_ne hlt h))

theorem atMost_antisymm (o p : Orphan) (hop : o.atMost p = true) (hpo : p.atMost o = true) : o = p := by
  rw [atMost_iff] at *
  obtain ⟨a, b⟩ := o
  obtain ⟨c, d⟩ := p
  rcases hop with h | ⟨rfl, hb⟩
  · rcases hpo with h' | ⟨rfl, -⟩
    · exact absurd (String.lt_trans h h') (String.lt_irrefl _)
    · exact absurd h (String.lt_irrefl _)
  · rcases hpo with h' | ⟨-, hb'⟩
    · exact absurd h' (String.lt_irrefl _)
    · exact congrArg (Orphan.mk a) (String.le_antisymm hb hb')

/-- Orphans in strict order are what sorting makes of them, in whatever order they come. -/
theorem mergeSort_of_perm {l m : List Orphan} (hl : l.Perm m) (hm : m.Pairwise Before) : l.mergeSort atMost = m := by
  have hsorted : (l.mergeSort atMost).Pairwise fun o p => o.atMost p = true :=
    List.pairwise_mergeSort atMost_trans atMost_total l
  have hsorted' : m.Pairwise fun o p => o.atMost p = true := hm.imp Before.atMost
  have hperm : (l.mergeSort atMost).Perm m := (List.mergeSort_perm l atMost).trans hl
  exact hperm.eq_of_pairwise (fun o p _ _ => atMost_antisymm o p) hsorted hsorted'

end Orphan

namespace Graph

variable {items : List Item} {completed : StringSet} {policy : OrphanPolicy} {turns : Turns} {id b k x : String}

theorem mergeSort_id_sorted (hn : (items.map (·.id)).Nodup) :
    (items.mergeSort fun i j => i.id ≤ j.id).Pairwise fun i j => i.id < j.id := by
  have htrans (a b c : Item) (hab : decide (a.id ≤ b.id) = true) (hbc : decide (b.id ≤ c.id) = true) :
      decide (a.id ≤ c.id) = true := decide_eq_true (String.le_trans (of_decide_eq_true hab) (of_decide_eq_true hbc))
  have htotal (a b : Item) : (decide (a.id ≤ b.id) || decide (b.id ≤ a.id)) = true := by
    simpa using String.le_total a.id b.id
  have hle := List.pairwise_mergeSort htrans htotal items
  have hperm := (List.mergeSort_perm items fun i j => decide (i.id ≤ j.id)).map (·.id)
  have hne := List.pairwise_map.mp (hperm.nodup_iff.mpr hn)
  refine (hle.and hne).imp fun ⟨hab, hne⟩ => ?_
  exact StringSet.lt_of_not_lt_of_ne (String.not_lt.mpr (of_decide_eq_true hab)) (Ne.symm hne)

/-- The orphans are listed by item and then by blocker, and none is listed twice. -/
theorem orphansOf_sorted (hn : (items.map (·.id)).Nodup) : (orphansOf items completed).Pairwise Orphan.Before := by
  refine List.pairwise_flatMap.mpr ⟨fun i _ => ?_, (mergeSort_id_sorted hn).imp fun hij o ho p hp => ?_⟩
  · exact List.pairwise_map.mpr ((StringSet.increasing _).imp fun hab => .inr ⟨rfl, hab⟩)
  · obtain ⟨-, -, rfl⟩ := List.mem_map.mp ho
    obtain ⟨-, -, rfl⟩ := List.mem_map.mp hp
    exact .inl hij

/-! ### The dependents -/

theorem contains_turnRound {m : StringMap StringSet} {e : String × StringSet} :
    (turnRound m e).contains k = true ↔ m.contains k = true ∨ k ∈ e.2 := by
  refine (foldl_iff (P := fun m : StringMap StringSet => m.contains k = true) (Q := fun b => k = b) fun m b => ?_).trans ?_
  · rw [enter, StringMap.contains_insert, or_comm]
  · simp [StringSet.mem_def]

/-- An item is entered under all that it waits for. -/
theorem mem_turnRound {m : StringMap StringSet} {e : String × StringSet} :
    x ∈ (turnRound m e).setAt k ↔ x ∈ m.setAt k ∨ x = e.1 ∧ k ∈ e.2 := by
  refine (foldl_iff (P := fun m : StringMap StringSet => x ∈ m.setAt k) (Q := fun b => x = e.1 ∧ k = b) fun m b => ?_).trans ?_
  · rw [enter, StringMap.setAt_insert]
    split
    · next h => subst h; rw [StringSet.mem_insert, or_comm, and_iff_left rfl]
    · next h => simp [h]
  · simp [StringSet.mem_def, and_comm]

theorem mem_setAt_turned {l : List (String × StringSet)} :
    x ∈ (l.foldl turnRound ∅).setAt k ↔ ∃ e ∈ l, x = e.1 ∧ k ∈ e.2 := by
  refine (foldl_iff (P := fun m : StringMap StringSet => x ∈ m.setAt k) fun m e => mem_turnRound (m := m) (e := e)).trans ?_
  simp [StringMap.setAt]

theorem contains_turned {l : List (String × StringSet)} :
    (l.foldl turnRound ∅).contains k = true ↔ ∃ e ∈ l, k ∈ e.2 := by
  refine (foldl_iff (P := fun m : StringMap StringSet => m.contains k = true) fun m e =>
    contains_turnRound (m := m) (e := e)).trans ?_
  simp [StringMap.contains]

/-- Items are entered with the same result in any order. -/
theorem turned_of_perm {l m : List (String × StringSet)} (h : l.Perm m) :
    l.foldl turnRound ∅ = m.foldl turnRound ∅ :=
  StringMap.ext_setAt (fun k => by simp [contains_turned, h.mem_iff])
    (fun k _ x => by simp [mem_setAt_turned, h.mem_iff])

/-! ### The whole graph -/

theorem neither_eq (hn : (items.map (·.id)).Nodup) :
    (fun b => !(table items fun i => i).contains b && !completed.contains b) = isOrphan items completed := by
  funext b
  have hknown : (table items fun i => i).contains b = items.any (·.id == b) := by
    rw [Bool.eq_iff_iff, StringMap.contains_iff]
    simp [get?_table hn]
  rw [hknown, isOrphan]

/-- In whatever order the tables are gone through, the graph of items with different ids goes by what is declared. -/
theorem arrange_table (turns : Turns) (hn : (items.map (·.id)).Nodup) :
    arrange turns completed policy (table items fun i => i) = declared items completed policy := by
  have harena := turns_table hn (f := fun i => i) turns
  have hown : StringMap.ofList ((turns.of (table items fun i => i)).map fun e => (e.2.id, e.2.blockedBy)) =
      table items Item.blockedBy := by
    refine eq_table hn ((harena.map _).trans ?_)
    rw [List.map_map]
    exact .refl _
  have horder : Item.inOrder ((turns.of (table items fun i => i)).map (·.2)) = Item.inOrder items := by
    have hperm : ((turns.of (table items fun i => i)).map (·.2)).Perm items := by
      simpa [Function.comp_def] using harena.map (·.2)
    refine Item.inOrder_congr hperm ?_
    have hids : (((turns.of (table items fun i => i)).map (·.2)).map (·.id)).Nodup := (hperm.map _).nodup_iff.mpr hn
    exact .of_map Prod.snd (by simpa [Function.comp_def] using hids)
  obtain ⟨hsifted, horphans⟩ := sift_table hn policy (isOrphan items completed)
    (turns_table hn (f := declaredBlockers items) turns)
  have hblockers : (fun i => kept (isOrphan items completed) policy (declaredBlockers items i)) =
      effectiveBlockers items completed policy := by
    cases policy <;> rfl
  rw [hblockers] at hsifted
  have hsorted := Orphan.mergeSort_of_perm (m := orphansOf items completed)
    (horphans.trans ((List.mergeSort_perm items _).flatMap_right _).symm) (orphansOf_sorted hn)
  have hentries : (Item.inOrder items).map
      (fun i => (i, (table items (effectiveBlockers items completed policy)).setAt i.id)) =
      (Item.inOrder items).map fun i => (i, effectiveBlockers items completed policy i) :=
    List.map_congr_left fun i hi => by rw [setAt_table hn ((Item.inOrder_perm items).mem_iff.mp hi)]
  have hturned := turned_of_perm ((turns_table hn (f := effectiveBlockers items completed policy) turns).trans
    ((Item.inOrder_perm items).symm.map _))
  simp only [arrange, hown, foldl_announce hn harena, neither_eq hn, horder, hsifted, hsorted, hentries, hturned,
    declared]

/-- In whatever order the tables are gone through, a graph is refused for the first item whose id occurred before, and
otherwise goes by what is declared. -/
theorem buildIn_eq (turns : Turns) : buildIn turns items completed policy =
    match firstRepeated [] (items.map (·.id)) with
    | some id => .error (.duplicateId id)
    | none => .ok (declared items completed policy) := by
  have hempty (id : String) : (∅ : StringMap Item).contains id = true ↔ id ∈ [] := by simp [StringMap.contains]
  rw [buildIn, file_eq hempty]
  cases h : firstRepeated [] (items.map (·.id)) with
  | some id => rfl
  | none => exact congrArg Except.ok (arrange_table turns (firstRepeated_eq_none.mp h).1)

theorem build_eq : build items completed policy = match firstRepeated [] (items.map (·.id)) with
    | some id => .error (.duplicateId id)
    | none => .ok (declared items completed policy) := buildIn_eq .byKey

end Graph

end WorkWaves
