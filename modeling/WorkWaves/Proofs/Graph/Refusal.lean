import Mathlib
import WorkWaves.Plan
import WorkWaves.Proofs.Graph.Cycles
import WorkWaves.Proofs.Graph.Spread
import WorkWaves.Proofs.Graph.Waves

/-!
# Refusals are exact

The waves end because nothing is ready any more (`ready_wavesFrom`). What is left over then waits for something that
is left over too (`leftover_waits`), so there is a cycle in it; conversely nothing on a cycle of open items ever gets
its turn. Plans and waves are refused for cycles only, and for all of them (`refusal_of_build`).
-/

namespace WorkWaves

namespace Graph

open Relation

variable {g : Graph} {items : List Item} {external completed done : StringSet} {policy : OrphanPolicy} {x : String}

/-- The items that are not done. -/
def undone (g : Graph) (done : StringSet) : List String := g.ids.filter (!g.isDone done ·)

theorem mem_undone : x ∈ g.undone done ↔ x ∈ g.ids ∧ g.isDone done x = false := by
  simp [undone]

theorem undone_union_lt (hn : g.ids.Nodup) (hr : g.ready done ≠ []) :
    (g.undone (done ∪ .ofList ((g.ready done).map (·.id)))).length < (g.undone done).length := by
  have hsplit : g.undone (done ∪ .ofList ((g.ready done).map (·.id))) =
      (g.undone done).filter fun x => !((g.ready done).map (·.id)).contains x := by
    rw [undone, undone, List.filter_filter]
    refine List.filter_congr fun x _ => Bool.eq_iff_iff.mpr ?_
    simp only [Bool.not_eq_true', ← Bool.not_eq_true, isDone_union_ready, not_or, Bool.and_eq_true,
      List.contains_iff_mem, and_comm]
  obtain ⟨i, hi⟩ := List.exists_mem_of_ne_nil _ hr
  have hready := (mem_ready hn).mp hi
  rw [hsplit]
  refine List.length_filter_lt_length_iff_exists.mpr
    ⟨i.id, mem_undone.mpr ⟨ids_of_mem_items hready.1, hready.2.1⟩, ?_⟩
  simpa using ⟨i, hi, rfl⟩

/-- With more steps than there are items left, the waves end only when nothing is ready. -/
theorem ready_wavesFrom (hn : g.ids.Nodup) {fuel : Nat} (h : (g.undone done).length < fuel) (k : Nat) :
    g.ready (g.wavesFrom fuel k done).2 = [] := by
  induction fuel generalizing k done with
  | zero => omega
  | succ fuel ih =>
    by_cases hr : g.ready done = []
    · rw [wavesFrom_succ_of_ready_eq_nil hr]
      exact hr
    · rw [wavesFrom_succ_of_ready_ne_nil hr]
      exact ih (Nat.lt_of_lt_of_le (undone_union_lt hn hr) (Nat.le_of_lt_succ h)) (k + 1)

theorem ready_waves (hn : g.ids.Nodup) (completed : StringSet) :
    g.ready (g.wavesFrom (g.size + 1) 0 completed).2 = [] := by
  refine ready_wavesFrom hn (Nat.lt_succ_of_le ?_) 0
  have h := List.length_filter_le (!g.isDone completed ·) g.ids
  rwa [ids, List.length_map] at h

/-- An id that is neither completed nor known never to run. -/
structure Open (g : Graph) (completed : StringSet) (id : String) : Prop where
  not_done : g.isDone completed id = false
  not_blocked : id ∉ (g.blocked completed).map (·.itemId)

/-- An item waits for another one, and both are open. -/
structure OpenWaits (g : Graph) (completed : StringSet) (a b : String) : Prop where
  waits : g.Waits a b
  left_open : g.Open completed a
  right_open : g.Open completed b

theorem mem_leftover : x ∈ g.leftover done (g.blocked completed) ↔
    x ∈ g.ids ∧ g.isDone done x = false ∧ x ∉ (g.blocked completed).map (·.itemId) := by
  simp only [leftover, List.mem_filter, Bool.and_eq_true, Bool.not_eq_true', ← Bool.not_eq_true, List.any_eq_true,
    beq_iff_eq, List.mem_map]

theorem Built.orphan_item (h : Built items external policy g) {o : Orphan} (ho : o ∈ g.orphans) :
    o.itemId ∈ g.ids := by
  obtain ⟨i, hi, hid, -⟩ := (h.mem_orphans o).mp ho
  exact hid ▸ ids_of_mem_items (h.mem_items.mpr hi)

theorem Built.mem_blocked_iff (h : Built items external policy g) :
    x ∈ (g.blocked completed).map (·.itemId) ↔ policy = .block ∧ g.Hopeless completed x := by
  rw [Graph.mem_blocked_iff h.reversed fun o ho => h.orphan_item ho, h.policy_eq]

/-- What an item waits for is an item too, unless it is completed or makes the item hopeless. -/
theorem Built.blocker_item (h : Built items external policy g) {b : String} (hb : b ∈ g.blockersOf x)
    (hd : g.isDone completed x = false) (hbd : b ∉ external) :
    b ∈ g.ids ∨ policy = .block ∧ g.Hopeless completed x := by
  obtain ⟨i, hi, rfl⟩ := mem_ids.mp (mem_ids_of_mem_blockersOf hb)
  have hawaits := (h.mem_blockersOf (h.mem_items.mp hi)).mp hb
  by_cases hid : b ∈ g.ids
  · exact .inl hid
  · have hno : ¬ ∃ j ∈ items, j.id = b := fun ⟨j, hj, he⟩ => hid (he ▸ ids_of_mem_items (h.mem_items.mpr hj))
    cases hp : policy with
    | satisfy => exact absurd (hawaits.2 hp) (by simp only [hbd, false_or]; exact hno)
    | block =>
      have ho : (⟨i.id, b⟩ : Orphan) ∈ g.orphans := by
        refine (h.mem_orphans _).mpr ⟨i, h.mem_items.mp hi, rfl, mem_declaredBlockers.mpr hawaits.1, ?_⟩
        exact isOrphan_iff.mpr ⟨fun j hj he => hno ⟨j, hj, he⟩, hbd⟩
      exact .inr ⟨rfl, .orphan ho hd⟩

/-- What is left over when nothing is ready waits for something that is left over too. -/
theorem leftover_waits (h : Built items external policy g) (hready : g.ready done = [])
    (hmono : ∀ id, g.isDone completed id = true → g.isDone done id = true)
    (hx : x ∈ g.leftover done (g.blocked completed)) :
    ∃ y ∈ g.leftover done (g.blocked completed), g.OpenWaits completed x y := by
  have notDone {id : String} (hid : g.isDone done id = false) : g.isDone completed id = false :=
    Bool.eq_false_iff.mpr fun hc => by simp [hmono id hc] at hid
  obtain ⟨hid, hd, hb⟩ := mem_leftover.mp hx
  obtain ⟨i, hi, rfl⟩ := mem_ids.mp hid
  have hnot : i ∉ g.ready done := by simp [hready]
  rw [mem_ready h.ids_nodup] at hnot
  obtain ⟨b, hmem, hbd⟩ : ∃ b ∈ g.blockersOf i.id, g.isDone done b = false := by
    simpa [hi, hd] using hnot
  have hnb : ¬ (policy = .block ∧ g.Hopeless completed i.id) := fun hh => hb (h.mem_blocked_iff.mpr hh)
  have hext : b ∉ external := fun he => by
    rw [Graph.isDone_iff.mpr (.inr (h.external ▸ he))] at hbd
    cases hbd
  have hitem : b ∈ g.ids := (h.blocker_item hmem (notDone hd) hext).resolve_right hnb
  have hbb : b ∉ (g.blocked completed).map (·.itemId) := fun hbb => by
    obtain ⟨hp, hh⟩ := h.mem_blocked_iff.mp hbb
    exact hnb ⟨hp, .behind hh hmem (notDone hd)⟩
  exact ⟨b, mem_leftover.mpr ⟨hitem, hbd, hbb⟩, ⟨hid, hitem, hmem⟩, ⟨notDone hd, hb⟩, ⟨notDone hbd, hbb⟩⟩

/-- Where everything leads to something, something leads back to itself. -/
theorem exists_transGen_self {α : Type} {R : α → α → Prop} {l : List α} (hne : l ≠ [])
    (h : ∀ a ∈ l, ∃ b ∈ l, TransGen R a b) : ∃ a, TransGen R a a := by
  induction l with
  | nil => exact absurd rfl hne
  | cons a l ih =>
    by_cases hself : TransGen R a a
    · exact ⟨a, hself⟩
    · -- without `a`, whatever leads to it leads to where it leads
      obtain ⟨b, hb, hab⟩ := h a (List.mem_cons_self ..)
      have hbl : b ∈ l := (List.mem_cons.mp hb).resolve_left fun he => hself (he ▸ hab)
      refine ih (List.ne_nil_of_mem hbl) fun c hc => ?_
      obtain ⟨d, hd, hcd⟩ := h c (List.mem_cons_of_mem a hc)
      rcases List.mem_cons.mp hd with rfl | hd
      · exact ⟨b, hbl, hcd.trans hab⟩
      · exact ⟨d, hd, hcd⟩

/-- Nothing on a cycle of open items is done after the waves. -/
theorem mem_leftover_of_openWaits (hn : g.ids.Nodup) (fuel k : Nat) (hx : TransGen (g.OpenWaits completed) x x) :
    x ∈ g.leftover (g.wavesFrom fuel k completed).2 (g.blocked completed) := by
  have hw := wavesFrom_ok hn fuel k completed
  obtain ⟨y, hxy, -⟩ := TransGen.head'_iff.mp hx
  refine mem_leftover.mpr ⟨hxy.waits.item, ?_, hxy.left_open.not_blocked⟩
  rw [← Bool.not_eq_true, hw.isDone_iff, not_or]
  refine ⟨by simp [hxy.left_open.not_done], fun hmem => ?_⟩
  obtain ⟨v, hv, hid⟩ := List.mem_flatMap.mp hmem
  obtain ⟨i, hi, rfl⟩ := List.mem_map.mp hid
  refine hw.inTurn.not_mem_of_closed (S := fun id => TransGen (g.OpenWaits completed) id i.id) (fun id hid => ?_)
    (fun j _ hj => ?_) i (List.mem_flatten.mpr ⟨v.items, List.mem_map_of_mem hv, hi⟩) hx
  · obtain ⟨b, hb, -⟩ := TransGen.head'_iff.mp hid
    simp [hb.left_open.not_done]
  · obtain ⟨b, hb, hrest⟩ := TransGen.head'_iff.mp hj
    refine ⟨b, hb.waits.blocker, ?_⟩
    rcases reflTransGen_iff_eq_or_transGen.mp hrest with he | hrest
    · exact he ▸ hx
    · exact hrest

theorem leftover_ne_nil_iff (h : Built items external policy g) (completed : StringSet) :
    g.leftover (g.wavesFrom (g.size + 1) 0 completed).2 (g.blocked completed) ≠ [] ↔
      ∃ x, TransGen (g.OpenWaits completed) x x := by
  constructor
  · intro hne
    refine exists_transGen_self hne fun x hx => ?_
    have hmono := (wavesFrom_ok h.ids_nodup (g.size + 1) 0 completed).isDone_iff
    obtain ⟨y, hy, hxy⟩ :=
      leftover_waits h (ready_waves h.ids_nodup completed) (fun id hid => (hmono id).mpr (.inl hid)) hx
    exact ⟨y, hy, .single hxy⟩
  · rintro ⟨x, hx⟩
    exact List.ne_nil_of_mem (mem_leftover_of_openWaits h.ids_nodup _ _ hx)

variable (completed) in
/-- The waves are refused for a cycle of open items, and for nothing else. -/
theorem waves_eq_error (h : Built items external policy g) :
    ((∃ e, g.waves completed = .error e) ↔ ∃ x, TransGen (g.OpenWaits completed) x x) ∧
      ∀ e, g.waves completed = .error e → e = .circular g.cycles := by
  have hcycles : (∃ x, TransGen (g.OpenWaits completed) x x) → g.cycles ≠ [] := fun ⟨x, hx⟩ hc =>
    cycles_eq_nil_iff.mp hc ⟨x, TransGen.mono (fun _ _ h => h.waits) _ _ hx⟩
  rw [← leftover_ne_nil_iff h] at hcycles ⊢
  simp only [waves]
  split
  · next hl => simp [hl]
  · next hl =>
    have hc : g.cycles.isEmpty = false := by simpa using hcycles hl
    simp only [hc, Bool.false_eq_true, if_false]
    exact ⟨iff_of_true ⟨_, rfl⟩ hl, fun e he => by cases he; rfl⟩

end Graph

namespace Plan

open Relation WorkWaves.Graph

variable {g : Graph} {items : List Item} {external : StringSet} {policy : OrphanPolicy}

theorem build_eq_error {completed : StringSet} {e : GraphError} : Plan.build g completed = .error e ↔
    g.validate = .error e ∨ g.validate = .ok () ∧ g.waves completed = .error e := by
  unfold Plan.build
  cases hv : g.validate with
  | error e' => simp [bind, Except.bind]
  | ok u => cases hw : g.waves completed <;> simp [bind, Except.bind, pure, Except.pure]

/-- A plan is refused for a cycle and for nothing else, and the refusal names the cycles that are found. The search
for waves comes to an end with nothing ready, and is refused, with the same words, for a cycle of items of which none
is completed or blocked, and for nothing else. -/
theorem refusal_of_build (hg : Graph.build items external policy = .ok g) (completed : StringSet) :
    ((∃ e, Plan.build g completed = .error e) ↔ ∃ x, TransGen g.Waits x x) ∧
    (∀ e, Plan.build g completed = .error e → e = .circular g.cycles) ∧
    g.ready (g.wavesFrom (g.size + 1) 0 completed).2 = [] ∧
    ((∃ e, g.waves completed = .error e) ↔ ∃ x, TransGen (g.OpenWaits completed) x x) ∧
    ∀ e, g.waves completed = .error e → e = .circular g.cycles := by
  have h := built_of_build hg
  obtain ⟨hwaves, hcircular⟩ := waves_eq_error completed h
  refine ⟨⟨?_, fun hc => ⟨_, build_eq_error.mpr (.inl (validate_eq_error.mpr ⟨hc, rfl⟩))⟩⟩, ?_,
    ready_waves h.ids_nodup completed, hwaves, hcircular⟩
  · rintro ⟨e, he⟩
    rcases build_eq_error.mp he with hv | ⟨-, hw⟩
    · exact (validate_eq_error.mp hv).1
    · obtain ⟨x, hx⟩ := hwaves.mp ⟨e, hw⟩
      exact ⟨x, TransGen.mono (fun _ _ h => h.waits) _ _ hx⟩
  · intro e he
    rcases build_eq_error.mp he with hv | ⟨-, hw⟩
    · exact (validate_eq_error.mp hv).2
    · exact hcircular e hw

/-- Two cycles: `a` and `b` wait for one another, and so do `c` and `d`, of which `c` waits for an orphan too. -/
def knots : List Item :=
  [{ id := "a", blockedBy := .ofList ["b"] }, { id := "b", blockedBy := .ofList ["a"] },
    { id := "c", blockedBy := .ofList ["d", "ghost"] }, { id := "d", blockedBy := .ofList ["c"] }]

/-- With `a` completed the waves are no longer refused, since the other cycle is blocked; the plan still is. -/
theorem refusal_of_knots : ∃ g, Graph.build knots ∅ .block = .ok g ∧
    g.cycles = [["a", "b", "a"], ["c", "d", "c"]] ∧ g.waves (.ofList ["a"]) = .ok [⟨0, [knots[1]]⟩] ∧
    ((∃ e, Plan.build g (.ofList ["a"]) = .error e) ↔ ∃ x, TransGen g.Waits x x) ∧
    (∀ e, Plan.build g (.ofList ["a"]) = .error e → e = .circular g.cycles) ∧
    g.ready (g.wavesFrom (g.size + 1) 0 (.ofList ["a"])).2 = [] ∧
    ((∃ e, g.waves (.ofList ["a"]) = .error e) ↔ ∃ x, TransGen (g.OpenWaits (.ofList ["a"])) x x) ∧
    ∀ e, g.waves (.ofList ["a"]) = .error e → e = .circular g.cycles := by
  have h : ((Graph.build knots ∅ .block).map fun g => (g.cycles, g.waves (.ofList ["a"]))) =
      .ok ([["a", "b", "a"], ["c", "d", "c"]], .ok [⟨0, [knots[1]]⟩]) := by cbv
  obtain ⟨g, hg⟩ : ∃ g, Graph.build knots ∅ .block = .ok g := build_eq_ok_of_nodup (by decide)
  simp only [hg, Except.map, Except.ok.injEq, Prod.mk.injEq] at h
  exact ⟨g, hg, h.1, h.2, refusal_of_build hg _⟩

end Plan

end WorkWaves
