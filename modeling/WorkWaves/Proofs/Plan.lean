import Mathlib
import WorkWaves.Plan
import WorkWaves.Proofs.Graph.Blocked
import WorkWaves.Proofs.Refine

/-!
# Plans are sound and complete

`Plan.Sound`: what a plan of a built graph says about the items. Each item is completed, in a wave or blocked,
and only one of these; what an item of a wave awaits is completed or stands in an earlier wave.
-/

namespace WorkWaves

namespace Plan

variable {items : List Item} {completed : StringSet} {policy : OrphanPolicy} {g : Graph} {p : Plan}

def waveIds (p : Plan) : List String := p.waves.flatMap RefinedWave.ids

def blockedIds (p : Plan) : List String := p.blocked.map (·.itemId)

theorem ids_eq : p.ids = p.waveIds ++ p.blockedIds := rfl

theorem total_eq (p : Plan) : p.total = p.ids.length := by
  have hscheduled (ws : List RefinedWave) (n : Nat) :
      ws.foldl (fun n w => n + w.items.length) n = n + (ws.flatMap RefinedWave.ids).length := by
    induction ws generalizing n with
    | nil => rfl
    | cons w ws ih =>
      rw [List.foldl_cons, ih, List.flatMap_cons, List.length_append, ← Nat.add_assoc]
      congr 2
      exact (List.length_map _).symm
  rw [total, scheduled, hscheduled, ids, List.length_append, List.length_map, Nat.zero_add]

theorem build_eq_ok (h : Plan.build g completed = .ok p) : ∃ ws, g.waves completed = .ok ws ∧
    p = ⟨refine ws, g.blocked completed, g.orphans, g.ids.filter (g.isDone completed),
      .ofList (g.entries.map fun e => (e.1.id, e.2.toList))⟩ := by
  unfold Plan.build at h
  cases hv : g.validate with
  | error e => simp [hv, bind, Except.bind] at h
  | ok u =>
    cases hw : g.waves completed with
    | error e => simp [hv, hw, bind, Except.bind] at h
    | ok ws =>
      simp only [hv, hw, bind, Except.bind, pure, Except.pure, Except.ok.injEq] at h
      exact ⟨ws, rfl, h.symm⟩

theorem exists_of_bind_eq_ok {α : Type} {external : StringSet} {f : Plan → α} {a : α}
    (h : ((Graph.build items external policy).bind fun g => (Plan.build g completed).map f) = .ok a) :
    ∃ g p, Graph.build items external policy = .ok g ∧ Plan.build g completed = .ok p ∧ f p = a := by
  cases hg : Graph.build items external policy with
  | error e => simp [hg, Except.bind] at h
  | ok g =>
    cases hp : Plan.build g completed with
    | error e => simp [hg, hp, Except.bind, Except.map] at h
    | ok p =>
      simp only [hg, hp, Except.bind, Except.map, Except.ok.injEq] at h
      exact ⟨g, p, rfl, hp, h⟩

/-- What a plan of a graph that was built from items says about them. -/
structure Sound (items : List Item) (completed : StringSet) (policy : OrphanPolicy) (p : Plan) : Prop where
  nodup : (items.map (·.id)).Nodup
  perm : (p.alreadyCompleted ++ p.waveIds ++ p.blockedIds).Perm (items.map (·.id))
  done : ∀ id ∈ p.alreadyCompleted, id ∈ completed
  fresh : ∀ id ∈ p.ids, id ∉ completed
  mem_items : ∀ w ∈ p.waves, ∀ i ∈ w.items, i ∈ items
  inTurn : InTurn (Graph.Awaits items completed policy) (· ∈ completed) (p.waves.map RefinedWave.items)
  index : p.waves.map (·.wave.index) = List.range p.waves.length
  mem_blockersOf : ∀ i ∈ items, ∀ b, b ∈ p.blockersOf i.id ↔ Graph.Awaits items completed policy i b
  increasing : ∀ i ∈ items, (p.blockersOf i.id).Pairwise (· < ·)

theorem flatMap_ids_refine_perm (ws : List Wave) :
    ((refine ws).flatMap RefinedWave.ids).Perm (ws.flatMap Wave.ids) := by
  have h := (refine_perm ws).map (·.id)
  rw [List.map_flatMap, List.map_flatMap] at h
  exact h

/-- No hopeless item stands in a wave. -/
theorem disjoint_waves_blocked (h : Graph.Built items completed policy g) {ws : List Wave} {done : StringSet}
    (hw : g.WavesOk completed ws done) {b : BlockedItem} (hb : b ∈ g.blocked completed) :
    b.itemId ∉ ws.flatMap Wave.ids := by
  obtain ⟨hp, -, hh⟩ := Graph.hopeless_of_mem_blocked h.reversed hb
  obtain rfl : policy = .block := h.policy_eq.symm.trans hp
  intro hmem
  obtain ⟨w, hw', hid⟩ := List.mem_flatMap.mp hmem
  obtain ⟨i, hi, hid⟩ := List.mem_map.mp hid
  refine Graph.Hopeless.not_mem_of_inTurn (fun o ho => h.orphan_mem_blockersOf ho) (fun o ho => ?_) hw.inTurn
    (fun j hj => ?_) i ?_ (hid ▸ hh)
  · refine ⟨h.orphan_not_mem_ids ho, ?_⟩
    rw [← Bool.not_eq_true, h.isDone_iff]
    exact h.orphan_not_mem_completed ho
  · obtain ⟨js, hjs, hj⟩ := List.mem_flatten.mp hj
    obtain ⟨v, hv, rfl⟩ := List.mem_map.mp hjs
    exact Graph.ids_of_mem_items (hw.mem_items v hv j hj)
  · exact List.mem_flatten.mpr ⟨w.items, List.mem_map_of_mem hw', hi⟩

theorem nodup_parts (h : Graph.Built items completed policy g) {ws : List Wave} {done : StringSet}
    (hw : g.WavesOk completed ws done) :
    (g.ids.filter (g.isDone completed) ++ ws.flatMap Wave.ids ++ (g.blocked completed).map (·.itemId)).Nodup := by
  rw [List.nodup_append, List.nodup_append]
  refine ⟨⟨h.ids_nodup.filter _, hw.nodup, ?_⟩, Graph.blocked_nodup h.ids_nodup, ?_⟩
  · rintro a ha b hb rfl
    have := hw.fresh a hb
    simp [(List.mem_filter.mp ha).2] at this
  · rintro a ha c hc rfl
    obtain ⟨b, hb, rfl⟩ := List.mem_map.mp hc
    rcases List.mem_append.mp ha with ha | ha
    · have := (Graph.hopeless_of_mem_blocked h.reversed hb).2.2.not_done
      simp [(List.mem_filter.mp ha).2] at this
    · exact disjoint_waves_blocked h hw hb ha

theorem mem_parts (h : Graph.Built items completed policy g) {ws : List Wave} {done : StringSet}
    (hw : g.WavesOk completed ws done)
    (hall : ∀ id ∈ g.ids, g.isDone done id = true ∨ id ∈ (g.blocked completed).map (·.itemId)) {id : String} :
    id ∈ g.ids.filter (g.isDone completed) ++ ws.flatMap Wave.ids ++ (g.blocked completed).map (·.itemId) ↔
      id ∈ g.ids := by
  simp only [List.mem_append, List.mem_filter]
  constructor
  · rintro ((⟨hid, -⟩ | hid) | hid)
    · exact hid
    · obtain ⟨w, hw', hid⟩ := List.mem_flatMap.mp hid
      obtain ⟨i, hi, rfl⟩ := List.mem_map.mp hid
      exact Graph.ids_of_mem_items (hw.mem_items w hw' i hi)
    · obtain ⟨b, hb, rfl⟩ := List.mem_map.mp hid
      exact (Graph.hopeless_of_mem_blocked h.reversed hb).2.1
  · intro hid
    rcases hall id hid with hd | hb
    · rcases (hw.isDone_iff id).mp hd with hd | hd
      · exact .inl (.inl ⟨hid, hd⟩)
      · exact .inl (.inr hd)
    · exact .inr hb

theorem mem_blockersOf_entries (h : Graph.Built items completed policy g) {i : Item} (hi : i ∈ items) :
    ((StringMap.ofList (g.entries.map fun e => (e.1.id, e.2.toList))).get? i.id).getD [] =
      (Graph.effectiveBlockers items completed policy i).toList := by
  have he := (h.mem_entries (i, Graph.effectiveBlockers items completed policy i)).mpr ⟨hi, rfl⟩
  have hn : ((g.entries.map fun e => (e.1.id, e.2.toList)).map (·.1)).Nodup := by
    simpa [Graph.ids, Function.comp_def] using h.ids_nodup
  rw [StringMap.get?_ofList_of_mem hn (List.mem_map.mpr ⟨_, he, rfl⟩)]
  rfl

theorem sound_of_build (h : Graph.Built items completed policy g) (hp : Plan.build g completed = .ok p) :
    Sound items completed policy p := by
  obtain ⟨ws, hws, rfl⟩ := build_eq_ok hp
  obtain ⟨done, hfrom, hall⟩ := Graph.waves_eq_ok hws
  have hw : g.WavesOk completed ws done := by
    have := Graph.wavesFrom_ok h.ids_nodup (g.size + 1) 0 completed
    rwa [hfrom] at this
  have hids := flatMap_ids_refine_perm ws
  have hmem : ∀ i ∈ (refine ws).flatMap RefinedWave.items, i ∈ items := fun i hi => by
    obtain ⟨w, hw', hi⟩ := List.mem_flatMap.mp ((refine_perm ws).mem_iff.mp hi)
    exact h.mem_items.mp (hw.mem_items w hw' i hi)
  refine ⟨h.nodup, ?_, ?_, ?_, ?_, ?_, refine_index ws, ?_, ?_⟩
  · refine (((hids.append_left _).append_right _).trans ?_).trans h.ids_perm
    exact (List.perm_ext_iff_of_nodup (nodup_parts h hw) h.ids_nodup).mpr fun id => mem_parts h hw hall
  · exact fun id hid => h.isDone_iff.mp (List.mem_filter.mp hid).2
  · intro id hid hc
    rw [← h.isDone_iff] at hc
    rcases List.mem_append.mp hid with hid | hid
    · have := hw.fresh id (hids.mem_iff.mp hid)
      simp [hc] at this
    · obtain ⟨b, hb, rfl⟩ := List.mem_map.mp hid
      have := (Graph.hopeless_of_mem_blocked h.reversed hb).2.2.not_done
      simp [hc] at this
  · exact fun w hw' i hi => hmem i (List.mem_flatMap.mpr ⟨w, hw', hi⟩)
  · refine (refine_inTurn hw.inTurn).imp (fun i hi b hb => ?_) fun id hid => h.isDone_iff.mp hid
    have hi' : i ∈ items := hmem i (by rwa [← List.flatMap_def] at hi)
    exact (h.mem_blockersOf hi').mpr hb
  · intro i hi b
    rw [blockersOf, mem_blockersOf_entries h hi]
    exact Graph.mem_effectiveBlockers
  · intro i hi
    rw [blockersOf, mem_blockersOf_entries h hi]
    exact StringSet.increasing _

/-- What an item of a wave awaits is completed or stands in an earlier wave. -/
theorem Sound.earlier (h : Sound items completed policy p) {w : RefinedWave} (hw : w ∈ p.waves) {i : Item}
    (hi : i ∈ w.items) {b : String} (hb : Graph.Awaits items completed policy i b) :
    b ∈ completed ∨ ∃ v ∈ p.waves, v.wave.index < w.wave.index ∧ b ∈ v.ids := by
  obtain ⟨pre, post, hsplit⟩ := List.append_of_mem hw
  have hturn := h.inTurn
  have hindex : (p.waves.map (·.wave.index)).Pairwise (· < ·) := h.index ▸ List.pairwise_lt_range
  rw [hsplit, List.map_append, List.map_cons] at hturn hindex
  refine (hturn.of_split hi hb).imp_right ?_
  rintro ⟨js, hjs, hb⟩
  obtain ⟨v, hv, rfl⟩ := List.mem_map.mp hjs
  refine ⟨v, by simp [hsplit, hv], ?_, hb⟩
  exact (List.pairwise_append.mp hindex).2.2 _ (List.mem_map_of_mem hv) _ (by simp)

/-- A plan puts each item in one place: it is completed already, in a wave or blocked. The ids in these places
are all different and just those of the items, and what an item of a wave awaits is completed or stands in a
wave with a smaller index. -/
theorem places_of_build (hg : Graph.build items completed policy = .ok g) (hp : Plan.build g completed = .ok p) :
    (p.alreadyCompleted ++ p.waves.flatMap RefinedWave.ids ++ p.blocked.map (·.itemId)).Nodup ∧
    (∀ id, id ∈ p.alreadyCompleted ++ p.waves.flatMap RefinedWave.ids ++ p.blocked.map (·.itemId) ↔
      ∃ i ∈ items, i.id = id) ∧
    ∀ w ∈ p.waves, ∀ i ∈ w.items, i ∈ items ∧ ∀ b, Graph.Awaits items completed policy i b →
      b ∈ completed ∨ ∃ v ∈ p.waves, v.wave.index < w.wave.index ∧ b ∈ v.ids := by
  have h := sound_of_build (Graph.built_of_build hg) hp
  refine ⟨h.perm.nodup_iff.mpr h.nodup, fun id => ?_, fun w hw i hi => ⟨h.mem_items w hw i hi, ?_⟩⟩
  · rw [← List.mem_map]
    exact h.perm.mem_iff
  · exact fun b hb => h.earlier hw hi hb

/-- Items of every kind: `b` awaits `a`, `c` awaits `b` and the completed `d`, and `e` awaits an orphan. -/
def variety : List Item :=
  [{ id := "c", blockedBy := .ofList ["b", "d"] }, { id := "a", blocks := .ofList ["b"] }, { id := "b" },
    { id := "d" }, { id := "e", blockedBy := .ofList ["ghost"] }]

theorem places_of_variety : ∃ g p, Graph.build variety (.ofList ["d"]) .block = .ok g ∧
    Plan.build g (.ofList ["d"]) = .ok p ∧
    (p.alreadyCompleted, p.waves.map RefinedWave.ids, p.blocked.map (·.itemId)) =
      (["d"], [["a"], ["b"], ["c"]], ["e"]) ∧
    (p.alreadyCompleted ++ p.waves.flatMap RefinedWave.ids ++ p.blocked.map (·.itemId)).Nodup ∧
    (∀ id, id ∈ p.alreadyCompleted ++ p.waves.flatMap RefinedWave.ids ++ p.blocked.map (·.itemId) ↔
      ∃ i ∈ variety, i.id = id) ∧
    ∀ w ∈ p.waves, ∀ i ∈ w.items, i ∈ variety ∧ ∀ b, Graph.Awaits variety (.ofList ["d"]) .block i b →
      b ∈ StringSet.ofList ["d"] ∨ ∃ v ∈ p.waves, v.wave.index < w.wave.index ∧ b ∈ v.ids := by
  have h : ((Graph.build variety (.ofList ["d"]) .block).bind fun g => (Plan.build g (.ofList ["d"])).map fun p =>
      (p.alreadyCompleted, p.waves.map RefinedWave.ids, p.blocked.map (·.itemId))) =
      .ok (["d"], [["a"], ["b"], ["c"]], ["e"]) := by cbv
  obtain ⟨g, p, hg, hp, hv⟩ := exists_of_bind_eq_ok h
  exact ⟨g, p, hg, hp, hv, places_of_build hg hp⟩

end Plan

end WorkWaves
