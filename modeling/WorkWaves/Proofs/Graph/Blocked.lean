import WorkWaves.Proofs.Graph.Waves

/-!
# Items that can never run

`Hopeless`: the least set of items that are not done and wait for an orphan or for another such item. What
`blocked` lists is hopeless, and no hopeless item gets its turn while its orphans stay undone.
-/

namespace WorkWaves.Graph

/-- An item that is not done and waits for an orphan, or for another item that is hopeless. -/
inductive Hopeless (g : Graph) (done : StringSet) : String → Prop
  | orphan {o : Orphan} : o ∈ g.orphans → g.isDone done o.itemId = false → Hopeless g done o.itemId
  | behind {id b : String} : Hopeless g done b → b ∈ g.blockersOf id → g.isDone done id = false →
    Hopeless g done id

variable {g : Graph} {done : StringSet}

theorem Hopeless.not_done {id : String} (h : g.Hopeless done id) : g.isDone done id = false := by
  cases h with
  | orphan _ hd => exact hd
  | behind _ _ hd => exact hd

/-- What makes an item hopeless is among the ids that it waits for. -/
theorem Hopeless.exists_blocker (ho : ∀ o ∈ g.orphans, o.blockerId ∈ g.blockersOf o.itemId) {id : String}
    (h : g.Hopeless done id) :
    ∃ b ∈ g.blockersOf id, g.Hopeless done b ∨ ∃ o ∈ g.orphans, o.blockerId = b := by
  cases h with
  | orphan hor _ => exact ⟨_, ho _ hor, .inr ⟨_, hor, rfl⟩⟩
  | behind hb hmem _ => exact ⟨_, hmem, .inl hb⟩

/-! ### What the walk from the orphans finds -/

/-- All that has been found is hopeless. -/
structure Spread.Sound (g : Graph) (done : StringSet) (s : Spread) : Prop where
  reasons : ∀ id, s.reasons.contains id = true → g.Hopeless done id
  pending : ∀ id ∈ s.pending, g.Hopeless done id

namespace Spread.Sound

variable {s : Spread}

theorem empty : Sound g done {} :=
  ⟨fun _ h => by simp [StringMap.contains] at h, fun _ h => by simp at h⟩

theorem mark (h : Sound g done s) {id : String} {why : BlockReason}
    (hid : g.isDone done id = false → g.Hopeless done id) : Sound g done (s.mark g done id why) := by
  unfold Spread.mark
  split
  · exact h
  · next hc =>
    have hh : g.Hopeless done id := by
      simp only [Bool.or_eq_true, not_or, Bool.not_eq_true] at hc
      exact hid hc.1
    refine ⟨fun x hx => ?_, fun x hx => ?_⟩
    · rw [StringMap.contains, StringMap.get?_insert] at hx
      split at hx
      · next he => exact he ▸ hh
      · exact h.reasons x hx
    · rcases List.mem_cons.mp hx with rfl | hx
      · exact hh
      · exact h.pending x hx

theorem foldl_mark {α : Type} (f : α → String) (why : α → BlockReason) {l : List α} (h : Sound g done s)
    (hl : ∀ a ∈ l, g.isDone done (f a) = false → g.Hopeless done (f a)) :
    Sound g done (l.foldl (fun s a => s.mark g done (f a) (why a)) s) := by
  induction l generalizing s with
  | nil => exact h
  | cons a r ih => exact ih (h.mark (hl a (by simp))) fun b hb => hl b (by simp [hb])

theorem run (hr : g.Reversed) (fuel : Nat) (h : Sound g done s) : Sound g done (Spread.run g done fuel s) := by
  induction fuel generalizing s with
  | zero => exact h
  | succ fuel ih =>
    unfold Spread.run
    split
    · exact h
    · next id rest hp =>
      have hid : g.Hopeless done id := h.pending id (by simp [hp])
      refine ih (foldl_mark (fun d => d) (fun _ => .behind id) ⟨h.reasons, fun x hx => ?_⟩ fun d hd => ?_)
      · exact h.pending x (by simp [hp, hx])
      · exact .behind hid ((hr d id).mp hd)

end Spread.Sound

theorem hopeless_of_mem_blocked (hr : g.Reversed) {b : BlockedItem} (hb : b ∈ g.blocked done) :
    g.policy = .block ∧ b.itemId ∈ g.ids ∧ g.Hopeless done b.itemId := by
  unfold blocked at hb
  split at hb
  · simp at hb
  · next hp =>
    obtain ⟨id, hid, hget⟩ := List.mem_filterMap.mp hb
    obtain ⟨why, hwhy, rfl⟩ := Option.map_eq_some_iff.mp hget
    refine ⟨hp, hid, ?_⟩
    have hseeds : Spread.Sound g done _ := Spread.Sound.foldl_mark (s := {}) (·.itemId)
      (fun o => .unresolved o.blockerId) .empty fun o ho => .orphan ho
    exact (hseeds.run hr _).reasons id (by rw [StringMap.contains, hwhy]; rfl)

theorem map_itemId_listed (r : StringMap BlockReason) (l : List String) :
    (l.filterMap fun id => (r.get? id).map (BlockedItem.mk id)).map (·.itemId) = l.filter r.contains := by
  induction l with
  | nil => rfl
  | cons id l ih =>
    cases h : r.get? id with
    | none => simp [h, StringMap.contains, ih]
    | some why => simp [h, StringMap.contains, ih]

theorem blocked_nodup (hn : g.ids.Nodup) : ((g.blocked done).map (·.itemId)).Nodup := by
  unfold blocked
  split
  · simp
  · rw [map_itemId_listed]
    exact hn.filter _

/-- While orphans are no items and not done, a hopeless item never gets its turn. -/
theorem Hopeless.not_mem_of_inTurn (ho : ∀ o ∈ g.orphans, o.blockerId ∈ g.blockersOf o.itemId)
    (hi : ∀ o ∈ g.orphans, o.blockerId ∉ g.ids ∧ g.isDone done o.blockerId = false) {iss : List (List Item)}
    (h : InTurn (fun i b => b ∈ g.blockersOf i.id) (g.isDone done · = true) iss)
    (hiss : ∀ i ∈ iss.flatten, i.id ∈ g.ids) : ∀ i ∈ iss.flatten, ¬ g.Hopeless done i.id := by
  intro i hmem hh
  refine h.not_mem_of_closed (S := fun id => g.Hopeless done id ∨ ∃ o ∈ g.orphans, o.blockerId = id) ?_ ?_
    i hmem (.inl hh)
  · rintro id (hs | ⟨o, hor, rfl⟩)
    · simp [hs.not_done]
    · simp [(hi o hor).2]
  · rintro j hj (hs | ⟨o, hor, he⟩)
    · exact hs.exists_blocker ho
    · exact absurd (he ▸ hiss j hj) (hi o hor).1

end WorkWaves.Graph
