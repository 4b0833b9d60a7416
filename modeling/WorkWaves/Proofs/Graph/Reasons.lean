import WorkWaves.Proofs.Graph.Earliest

/-!
# Why items can never run

An item with orphans is marked before any other, for the first of its orphans, which is the smallest one
(`orphansOf_pairwise`). Every other item is marked for one that is marked before it and that it waits for. So what is
marked can be listed, the latest first, with all reasons leading further down the list (`Grounded`), and from each item
they lead to an orphan without coming back (`Grounded.exists_trail`). `blocked` lists the least set of items that it
could list (`isLeast_blocked`).
-/

namespace WorkWaves.Graph

variable {g : Graph} {items : List Item} {external completed done : StringSet} {policy : OrphanPolicy} {id : String}
  {marked : List BlockedItem} {s : Spread}

/-- Orphans of one item come in increasing order. -/
theorem orphansOf_pairwise (hn : (items.map (·.id)).Nodup) :
    (orphansOf items external).Pairwise fun o o' => o.itemId = o'.itemId → o.blockerId < o'.blockerId := by
  have hsorted : ((items.mergeSort fun a b => a.id ≤ b.id).map (·.id)).Nodup :=
    ((List.mergeSort_perm items _).map (·.id)).nodup_iff.mpr hn
  refine List.pairwise_flatMap.mpr ⟨fun i _ => ?_, ?_⟩
  · have hinc := ((declaredBlockers items i).filter (isOrphan items external)).increasing
    exact List.pairwise_map.mpr (hinc.imp fun {a b} hlt (_ : i.id = i.id) => hlt)
  · refine (List.pairwise_map.mp hsorted).imp fun {i j} hne o ho o' ho' he => ?_
    obtain ⟨b, -, rfl⟩ := List.mem_map.mp ho
    obtain ⟨b', -, rfl⟩ := List.mem_map.mp ho'
    exact absurd he hne

theorem orphans_pairwise (hg : Graph.build items external policy = .ok g) :
    g.orphans.Pairwise fun o o' => o.itemId = o'.itemId → o.blockerId < o'.blockerId := by
  obtain ⟨hn, rfl⟩ := build_eq_ok_iff.mp hg
  exact orphansOf_pairwise hn

/-- A reason that holds once some items are marked: the smallest orphan of an item that has orphans, or else a marked
item that the item waits for. -/
inductive Accounted (g : Graph) (marked : List BlockedItem) : BlockedItem → Prop
  | orphan {id b : String} : IsLeast {b | ⟨id, b⟩ ∈ g.orphans} b → Accounted g marked ⟨id, .unresolved b⟩
  | behind {id : String} {e : BlockedItem} : (∀ o ∈ g.orphans, o.itemId ≠ id) → e ∈ marked →
    e.itemId ∈ g.blockersOf id → Accounted g marked ⟨id, .behind e.itemId⟩

/-- Different items, the latest first, each with a reason that holds when those further down are marked. -/
def Grounded (g : Graph) : List BlockedItem → Prop
  | [] => True
  | e :: marked => g.Accounted marked e ∧ e.itemId ∉ marked.map (·.itemId) ∧ Grounded g marked

/-- From each item the reasons lead along other items to one that waits for an orphan. -/
theorem Grounded.exists_trail (h : g.Grounded marked) {e : BlockedItem} (he : e ∈ marked) :
    ∃ trail : List BlockedItem, trail.head? = some e ∧ (∀ x ∈ trail, x ∈ marked) ∧ (trail.map (·.itemId)).Nodup ∧
      trail.IsChain (fun x y => x.reason = .behind y.itemId) ∧
      ∃ last ∈ trail.getLast?, ∃ b, last.reason = .unresolved b ∧ ⟨last.itemId, b⟩ ∈ g.orphans := by
  induction marked generalizing e with
  | nil => cases he
  | cons e₀ marked ih =>
    obtain ⟨hacc, hnew, hrest⟩ := h
    rcases List.mem_cons.mp he with rfl | he
    · cases hacc with
      | @orphan id b hleast =>
        exact ⟨[⟨id, .unresolved b⟩], rfl, by simp, by simp, .singleton _, _, rfl, b, rfl, hleast.1⟩
      | @behind id e' _ he' _ =>
        obtain ⟨trail, hhead, hmem, hn, hchain, last, hlast, b, hb, ho⟩ := ih hrest he'
        obtain ⟨trail', rfl⟩ := List.head?_eq_some_iff.mp hhead
        refine ⟨⟨id, .behind e'.itemId⟩ :: e' :: trail', rfl, fun x hx => ?_, ?_, ?_, last, hlast, b, hb, ho⟩
        · rcases List.mem_cons.mp hx with rfl | hx
          · exact List.mem_cons_self ..
          · exact List.mem_cons_of_mem _ (hmem x hx)
        · refine List.nodup_cons.mpr ⟨fun hid => hnew ?_, hn⟩
          obtain ⟨x, hx, hxid⟩ := List.mem_map.mp hid
          exact List.mem_map.mpr ⟨x, hmem x hx, hxid⟩
        · exact hchain.cons_cons rfl
    · obtain ⟨trail, hhead, hmem, hrest⟩ := ih hrest he
      exact ⟨trail, hhead, fun x hx => List.mem_cons_of_mem _ (hmem x hx), hrest⟩

theorem Grounded.accounted (h : g.Grounded marked) {e : BlockedItem} (he : e ∈ marked) : g.Accounted marked e := by
  induction marked with
  | nil => cases he
  | cons e₀ marked ih =>
    have hacc : g.Accounted marked e := by
      rcases List.mem_cons.mp he with rfl | he
      · exact h.1
      · exact ih h.2.2 he
    cases hacc with
    | orphan hleast => exact .orphan hleast
    | behind hno he' hb => exact .behind hno (List.mem_cons_of_mem _ he') hb

/-! ### The walk from the orphans -/

/-- A spread has marked some items, all for reasons that hold. -/
structure Spread.Told (g : Graph) (s : Spread) (marked : List BlockedItem) : Prop where
  reasons : ∀ e : BlockedItem, s.reasons.get? e.itemId = some e.reason ↔ e ∈ marked
  pending : ∀ id ∈ s.pending, id ∈ marked.map (·.itemId)
  grounded : g.Grounded marked

/-- Whatever comes to be marked of some things, when those before it are done or marked, is marked for a reason that
holds. -/
def Spread.Warranted (g : Graph) (done : StringSet) (marked : List BlockedItem) {α : Type} (f : α → String)
    (why : α → BlockReason) (l : List α) : Prop :=
  ∀ pre a post, l = pre ++ a :: post → ∀ more : List BlockedItem,
    (∀ b ∈ pre, g.isDone done (f b) = false → f b ∈ (more ++ marked).map (·.itemId)) →
    g.isDone done (f a) = false → f a ∉ (more ++ marked).map (·.itemId) → g.Accounted (more ++ marked) ⟨f a, why a⟩

theorem warranted_orphans
    (hsorted : g.orphans.Pairwise fun o o' => o.itemId = o'.itemId → o.blockerId < o'.blockerId) :
    Spread.Warranted g done [] Orphan.itemId (fun o => .unresolved o.blockerId) g.orphans := by
  intro pre o post hsplit more hpre hd hnot
  have ho : o ∈ g.orphans := hsplit ▸ List.mem_append_right pre (List.mem_cons_self ..)
  refine .orphan ⟨ho, fun b hb => ?_⟩
  rw [hsplit, List.pairwise_append] at hsorted
  obtain ⟨-, hpost, -⟩ := hsorted
  have hb' : (⟨o.itemId, b⟩ : Orphan) ∈ pre ++ o :: post := hsplit ▸ hb
  rcases List.mem_append.mp hb' with hb' | hb'
  · -- An orphan of the item that came before would have marked it already.
    exact absurd (hpre _ hb' hd) hnot
  · rcases List.mem_cons.mp hb' with he | hb'
    · exact le_of_eq (congrArg Orphan.blockerId he).symm
    · exact le_of_lt ((List.pairwise_cons.mp hpost).1 _ hb' rfl)

theorem warranted_dependents (hr : g.Reversed) {e : BlockedItem} (he : e ∈ marked)
    (ho : ∀ o ∈ g.orphans, g.isDone done o.itemId = false → o.itemId ∈ marked.map (·.itemId)) :
    Spread.Warranted g done marked (fun d => d) (fun _ => .behind e.itemId) (g.dependentsOf e.itemId).toList := by
  intro pre d post hsplit more _ hd hnot
  have hdep : d ∈ g.dependentsOf e.itemId := by
    rw [StringSet.mem_def, hsplit]
    exact List.mem_append_right pre (List.mem_cons_self ..)
  refine .behind (fun o hmem hid => hnot ?_) (List.mem_append_right more he) ((hr d e.itemId).mp hdep)
  subst hid
  rw [List.map_append]
  exact List.mem_append_right _ (ho o hmem hd)

namespace Spread.Told

theorem contains_iff (h : Told g s marked) : s.reasons.contains id = true ↔ id ∈ marked.map (·.itemId) := by
  rw [StringMap.contains, Option.isSome_iff_exists, List.mem_map]
  constructor
  · rintro ⟨why, hwhy⟩
    exact ⟨⟨id, why⟩, (h.reasons ⟨id, why⟩).mp hwhy, rfl⟩
  · rintro ⟨e, he, rfl⟩
    exact ⟨e.reason, (h.reasons e).mpr he⟩

theorem mark (h : Told g s marked) {why : BlockReason}
    (hwhy : g.isDone done id = false → id ∉ marked.map (·.itemId) → g.Accounted marked ⟨id, why⟩) :
    ∃ more, Told g (s.mark g done id why) (more ++ marked) ∧
      (g.isDone done id = false → id ∈ (more ++ marked).map (·.itemId)) := by
  unfold Spread.mark
  split
  · next hc =>
    refine ⟨[], h, fun hd => ?_⟩
    rw [hd, Bool.false_or, h.contains_iff] at hc
    exact hc
  · next hc =>
    simp only [Bool.or_eq_true, not_or, Bool.not_eq_true, h.contains_iff] at hc
    refine ⟨[⟨id, why⟩], ⟨fun e => ?_, fun x hx => ?_, hwhy hc.1 hc.2, hc.2, h.grounded⟩, fun _ => by simp⟩
    · rw [StringMap.get?_insert, List.singleton_append, List.mem_cons, ← h.reasons]
      obtain ⟨x, why'⟩ := e
      by_cases hx : x = id
      · subst hx
        have hnone : s.reasons.get? x = none := by
          rw [← Option.not_isSome_iff_eq_none]
          exact fun hsome => hc.2 (h.contains_iff.mp hsome)
        simp [hnone, eq_comm]
      · simp [hx]
    · rcases List.mem_cons.mp hx with rfl | hx
      · simp
      · exact List.mem_cons_of_mem id (h.pending x hx)

/-- Marks things one after the other, all for reasons that are warranted. -/
theorem foldl_mark {α : Type} {f : α → String} {why : α → BlockReason} {l : List α} (h : Told g s marked)
    (hl : Warranted g done marked f why l) :
    ∃ more, Told g (l.foldl (fun s a => s.mark g done (f a) (why a)) s) (more ++ marked) ∧
      ∀ a ∈ l, g.isDone done (f a) = false → f a ∈ (more ++ marked).map (·.itemId) := by
  induction l using List.reverseRecOn with
  | nil => exact ⟨[], h, by simp⟩
  | append_singleton l a ih =>
    obtain ⟨more, hmore, hall⟩ := ih fun pre b post he => hl pre b (post ++ [a]) (by simp [he])
    obtain ⟨new, hnew, ha⟩ := hmore.mark fun hd hnot => hl l a [] rfl more hall hd hnot
    rw [List.foldl_concat, ← List.append_assoc] at *
    refine ⟨new ++ more, hnew, fun b hb hd => ?_⟩
    rcases List.mem_append.mp hb with hb | hb
    · rw [List.append_assoc, List.map_append]
      exact List.mem_append_right _ (hall b hb hd)
    · obtain rfl : b = a := List.mem_singleton.mp hb
      exact ha hd

variable (done) in
/-- Items with orphans are marked for the smallest one. -/
theorem seeds (hsorted : g.orphans.Pairwise fun o o' => o.itemId = o'.itemId → o.blockerId < o'.blockerId) :
    ∃ marked, Told g (g.orphans.foldl (fun s o => s.mark g done o.itemId (.unresolved o.blockerId)) {}) marked ∧
      ∀ o ∈ g.orphans, g.isDone done o.itemId = false → o.itemId ∈ marked.map (·.itemId) := by
  have hempty : Told g {} [] := ⟨by simp, by simp, trivial⟩
  obtain ⟨marked, hmarked, hall⟩ := hempty.foldl_mark (warranted_orphans hsorted)
  rw [List.append_nil] at hmarked hall
  exact ⟨marked, hmarked, hall⟩

/-- Going on from marked items marks others for reasons that hold, if the items with orphans are done or marked. -/
theorem run (hr : g.Reversed) (h : Told g s marked)
    (ho : ∀ o ∈ g.orphans, g.isDone done o.itemId = false → o.itemId ∈ marked.map (·.itemId)) (fuel : Nat) :
    ∃ more, Told g (Spread.run g done fuel s) (more ++ marked) := by
  induction fuel generalizing s marked with
  | zero => exact ⟨[], h⟩
  | succ fuel ih =>
    unfold Spread.run
    split
    · exact ⟨[], h⟩
    · next id rest hp =>
      have hrest : Told g { s with pending := rest } marked :=
        ⟨h.reasons, fun x hx => h.pending x (by rw [hp]; exact List.mem_cons_of_mem id hx), h.grounded⟩
      obtain ⟨e, he, rfl⟩ := List.mem_map.mp (h.pending id (by rw [hp]; exact List.mem_cons_self ..))
      obtain ⟨more, hmore, -⟩ := hrest.foldl_mark (warranted_dependents hr he ho)
      have ho' : ∀ o ∈ g.orphans, g.isDone done o.itemId = false → o.itemId ∈ (more ++ marked).map (·.itemId) := by
        intro o hmem hd
        rw [List.map_append]
        exact List.mem_append_right _ (ho o hmem hd)
      obtain ⟨more', hmore'⟩ := ih hmore ho'
      exact ⟨more' ++ more, by rwa [List.append_assoc]⟩

end Spread.Told

/-- All that `blocked` lists can be ordered so that it is marked for reasons that hold. -/
theorem exists_grounded (hg : Graph.build items external .block = .ok g) (completed : StringSet) :
    ∃ marked, g.Grounded marked ∧ ∀ e, e ∈ g.blocked completed ↔ e ∈ marked := by
  have h := built_of_build hg
  obtain ⟨seeds, hseeds, ho⟩ := Spread.Told.seeds completed (orphans_pairwise hg)
  obtain ⟨more, hmore⟩ := hseeds.run h.reversed ho (g.size + 1)
  refine ⟨more ++ seeds, hmore.grounded, fun e => ?_⟩
  have hids : e ∈ more ++ seeds → e.itemId ∈ g.ids := by
    intro he
    cases hmore.grounded.accounted he with
    | orphan hleast => exact h.orphan_item hleast.1
    | behind _ _ hb => exact mem_ids_of_mem_blockersOf hb
  rw [← hmore.reasons] at hids ⊢
  rw [blocked, h.policy_eq]
  simp only [List.mem_filterMap, Option.map_eq_some_iff]
  constructor
  · rintro ⟨id, -, why, hwhy, rfl⟩
    exact hwhy
  · exact fun he => ⟨e.itemId, hids he, e.reason, he, rfl⟩

/-! ### What is listed, and in which order -/

/-- A set that holds each item that is not completed, here or elsewhere, and has an orphan or awaits something in the
set. -/
def HoldsHopeless (g : Graph) (items : List Item) (external completed : StringSet) (S : Set String) : Prop :=
  ∀ i ∈ items, i.id ∉ completed → i.id ∉ external →
    ((∃ o ∈ g.orphans, o.itemId = i.id) ∨ ∃ b ∈ S, Awaits items external .block i b) → i.id ∈ S

theorem isLeast_blocked (h : Built items external .block g) (completed : StringSet) :
    IsLeast {S : Set String | g.HoldsHopeless items external completed S}
      {x | x ∈ (g.blocked completed).map (·.itemId)} := by
  have hmem : ∀ x, x ∈ (g.blocked completed).map (·.itemId) ↔ g.Hopeless completed x := fun x => by
    rw [h.mem_blocked_iff]
    exact and_iff_right rfl
  have hdone : ∀ x, g.isDone completed x = false ↔ x ∉ completed ∧ x ∉ external := fun x => by
    rw [← Bool.not_eq_true, Graph.isDone_iff, h.external, not_or]
  constructor
  · intro i hi hc he hwhy
    have hd : g.isDone completed i.id = false := (hdone i.id).mpr ⟨hc, he⟩
    refine (hmem i.id).mpr ?_
    rcases hwhy with ⟨o, ho, hid⟩ | ⟨b, hb, hawaits⟩
    · exact hid ▸ Hopeless.orphan ho (hid ▸ hd)
    · exact .behind ((hmem b).mp hb) ((h.mem_blockersOf hi).mpr hawaits) hd
  · intro S hS x hx
    have hopeless : g.Hopeless completed x := (hmem x).mp hx
    induction hopeless with
    | @orphan o ho hd =>
      obtain ⟨i, hi, hid, -⟩ := (h.mem_orphans o).mp ho
      obtain ⟨hc, he⟩ := (hdone _).mp hd
      rw [← hid] at hc he ⊢
      exact hS i hi hc he (.inl ⟨o, ho, hid.symm⟩)
    | @behind id b hb hmemb hd ih =>
      obtain ⟨i, hi, rfl⟩ := mem_ids.mp (mem_ids_of_mem_blockersOf hmemb)
      have hi' := h.mem_items.mp hi
      obtain ⟨hc, he⟩ := (hdone _).mp hd
      exact hS i hi' hc he (.inr ⟨b, ih ((hmem b).mpr hb), (h.mem_blockersOf hi').mp hmemb⟩)

/-- What is listed stands in the order in which items are taken up. -/
theorem exists_items_blocked (hg : Graph.build items external policy = .ok g) (completed : StringSet) :
    ∃ is : List Item, (∀ i ∈ is, i ∈ items) ∧ is.Pairwise Item.InPlace ∧
      is.map (·.id) = (g.blocked completed).map (·.itemId) := by
  have hsub : ((g.blocked completed).map (·.itemId)).Sublist (g.items.map (·.id)) := by
    rw [items_map_id]
    unfold blocked
    split
    · exact List.nil_sublist _
    · rw [map_itemId_listed]
      exact List.filter_sublist
  obtain ⟨is, his, he⟩ := List.sublist_map_iff.mp hsub
  exact ⟨is, fun i hi => (built_of_build hg).mem_items.mp (his.subset hi), (items_inPlace hg).sublist his, he.symm⟩

/-- Where orphans let through, nothing is blocked. Where they block, the least set of items is listed that are not
completed and have an orphan or await another item of the set, each once and in the order in which items are taken up.
An item with orphans is listed for the smallest one, and any other for an item that it waits for and that is listed
too. From each item these reasons lead along different items to one with an orphan. -/
theorem blocked_of_build (hg : Graph.build items external policy = .ok g) (completed : StringSet) :
    (policy = .satisfy → g.blocked completed = []) ∧
    (policy = .block →
      IsLeast {S : Set String | g.HoldsHopeless items external completed S}
        {x | x ∈ (g.blocked completed).map (·.itemId)} ∧
      ((g.blocked completed).map (·.itemId)).Nodup ∧
      (∃ is : List Item, (∀ i ∈ is, i ∈ items) ∧ is.Pairwise Item.InPlace ∧
        is.map (·.id) = (g.blocked completed).map (·.itemId)) ∧
      ∀ e ∈ g.blocked completed,
        ((∃ o ∈ g.orphans, o.itemId = e.itemId) →
          ∃ b, e.reason = .unresolved b ∧ IsLeast {b | ⟨e.itemId, b⟩ ∈ g.orphans} b) ∧
        ((¬ ∃ o ∈ g.orphans, o.itemId = e.itemId) →
          ∃ e' ∈ g.blocked completed, e.reason = .behind e'.itemId ∧ e'.itemId ∈ g.blockersOf e.itemId) ∧
        ∃ trail : List BlockedItem, trail.head? = some e ∧ (∀ x ∈ trail, x ∈ g.blocked completed) ∧
          (trail.map (·.itemId)).Nodup ∧ trail.IsChain (fun x y => x.reason = .behind y.itemId) ∧
          ∃ last ∈ trail.getLast?, ∃ b, last.reason = .unresolved b ∧ ⟨last.itemId, b⟩ ∈ g.orphans) := by
  have h := built_of_build hg
  refine ⟨fun hp => ?_, fun hp => ?_⟩
  · rw [blocked, h.policy_eq, hp]
  · subst hp
    obtain ⟨marked, hgrounded, hmarked⟩ := exists_grounded hg completed
    refine ⟨isLeast_blocked h completed, blocked_nodup h.ids_nodup, exists_items_blocked hg completed, fun e he => ?_⟩
    have he' : e ∈ marked := (hmarked e).mp he
    refine ⟨fun hor => ?_, fun hno => ?_, ?_⟩
    · cases hgrounded.accounted he' with
      | @orphan id b hleast => exact ⟨b, rfl, hleast⟩
      | behind hno =>
        obtain ⟨o, ho, hid⟩ := hor
        exact absurd hid (hno o ho)
    · cases hgrounded.accounted he' with
      | orphan hleast => exact absurd ⟨_, hleast.1, rfl⟩ hno
      | @behind id e' _ hmem hb => exact ⟨e', (hmarked e').mpr hmem, rfl, hb⟩
    · obtain ⟨trail, hhead, hmem, hrest⟩ := hgrounded.exists_trail he'
      exact ⟨trail, hhead, fun x hx => (hmarked x).mpr (hmem x hx), hrest⟩

/-- The items `a` and `b` wait for one another and `a` for two orphans as well, `c` waits for `b`, `d` for `c` and `e` for
`d`. -/
def haunts : List Item :=
  [{ id := "a", blockedBy := .ofList ["b", "spook", "ghost"] }, { id := "b", blockedBy := .ofList ["a"] },
    { id := "c", priority := { level := 1 }, blockedBy := .ofList ["b"] }, { id := "d", blockedBy := .ofList ["c"] },
    { id := "e", blockedBy := .ofList ["d"] }]

/-- With `d` completed, nothing that waits for `d` is blocked. -/
theorem blocked_of_haunts : ∃ g, Graph.build haunts ∅ .block = .ok g ∧
    g.blocked (.ofList ["d"]) = [⟨"c", .behind "b"⟩, ⟨"a", .unresolved "ghost"⟩, ⟨"b", .behind "a"⟩] ∧
    IsLeast {S : Set String | g.HoldsHopeless haunts ∅ (.ofList ["d"]) S}
      {x | x ∈ (g.blocked (.ofList ["d"])).map (·.itemId)} ∧
    ((g.blocked (.ofList ["d"])).map (·.itemId)).Nodup ∧
    (∃ is : List Item, (∀ i ∈ is, i ∈ haunts) ∧ is.Pairwise Item.InPlace ∧
      is.map (·.id) = (g.blocked (.ofList ["d"])).map (·.itemId)) ∧
    ∀ e ∈ g.blocked (.ofList ["d"]),
      ((∃ o ∈ g.orphans, o.itemId = e.itemId) →
        ∃ b, e.reason = .unresolved b ∧ IsLeast {b | ⟨e.itemId, b⟩ ∈ g.orphans} b) ∧
      ((¬ ∃ o ∈ g.orphans, o.itemId = e.itemId) →
        ∃ e' ∈ g.blocked (.ofList ["d"]), e.reason = .behind e'.itemId ∧ e'.itemId ∈ g.blockersOf e.itemId) ∧
      ∃ trail : List BlockedItem, trail.head? = some e ∧ (∀ x ∈ trail, x ∈ g.blocked (.ofList ["d"])) ∧
        (trail.map (·.itemId)).Nodup ∧ trail.IsChain (fun x y => x.reason = .behind y.itemId) ∧
        ∃ last ∈ trail.getLast?, ∃ b, last.reason = .unresolved b ∧ ⟨last.itemId, b⟩ ∈ g.orphans := by
  have h : (Graph.build haunts ∅ .block).map (·.blocked (.ofList ["d"])) =
      .ok [⟨"c", .behind "b"⟩, ⟨"a", .unresolved "ghost"⟩, ⟨"b", .behind "a"⟩] := by cbv
  obtain ⟨g, hg⟩ : ∃ g, Graph.build haunts ∅ .block = .ok g := build_eq_ok_of_nodup (by decide)
  rw [hg] at h
  exact ⟨g, hg, Except.ok.inj h, (blocked_of_build hg (.ofList ["d"])).2 rfl⟩

end WorkWaves.Graph
