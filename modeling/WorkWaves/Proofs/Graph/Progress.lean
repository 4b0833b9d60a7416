import WorkWaves.Proofs.Graph.Earliest

/-!
# Completing more delays nothing

With more completed, an item waits for less: what it still waits for comes no later than it did before, by induction
on the number of its wave, and an item comes right after the last of what it waits for (`index_le_of_subset`).
-/

namespace WorkWaves.Graph

open Relation

variable {g : Graph} {items : List Item} {external completed completed' done done' : StringSet} {policy : OrphanPolicy}
  {ws ws' : List Wave}

theorem isDone_of_subset (hsub : ∀ x ∈ completed, x ∈ completed') {x : String} (hx : g.isDone completed x = true) :
    g.isDone completed' x = true :=
  isDone_iff.mpr ((isDone_iff.mp hx).imp_left (hsub x))

/-- The waves after which nothing is ready have every item that waits only for what is done in the end. -/
theorem WavesOk.mem_waves (h : WavesOk g completed ws done) (hn : g.ids.Nodup) (hlast : g.ready done = []) {i : Item}
    (hi : i ∈ g.items) (hnot : g.isDone completed i.id = false)
    (hb : ∀ b ∈ g.blockersOf i.id, g.isDone completed b = true ∨ b ∈ ws.flatMap Wave.ids) :
    ∃ w ∈ ws, i ∈ w.items := by
  have hdone : g.isDone done i.id = true := by
    by_contra hd
    have hready : i ∈ g.ready done :=
      (mem_ready hn).mpr ⟨hi, Bool.eq_false_iff.mpr hd, fun b hmem => (h.isDone_iff b).mpr (hb b hmem)⟩
    rw [hlast] at hready
    cases hready
  rcases (h.isDone_iff i.id).mp hdone with hd | hmem
  · rw [hnot] at hd
    cases hd
  · obtain ⟨w, hw, hid⟩ := List.mem_flatMap.mp hmem
    obtain ⟨j, hj, hid⟩ := List.mem_map.mp hid
    have hji : j = i := List.inj_on_of_nodup_map (items_map_id ▸ hn) (h.mem_items w hw j hj) hi hid
    exact ⟨w, hw, hji ▸ hj⟩

/-- With more completed, what is still to be done is in waves that come no later. -/
theorem index_le_of_subset (hn : g.ids.Nodup) (hsub : ∀ x ∈ completed, x ∈ completed')
    (hok : WavesOk g completed ws done) (hearly : Earliest g completed 0 ws) (hok' : WavesOk g completed' ws' done')
    (hearly' : Earliest g completed' 0 ws') (hlast : g.ready done' = []) {w : Wave} (hw : w ∈ ws) {i : Item}
    (hi : i ∈ w.items) (hnot : g.isDone completed' i.id = false) : ∃ w' ∈ ws', i ∈ w'.items ∧ w'.index ≤ w.index := by
  induction hk : w.index using Nat.strong_induction_on generalizing w i with
  | _ k ih =>
    have hbefore : ∀ b ∈ g.blockersOf i.id, g.isDone completed' b = false →
        ∃ v' ∈ ws', b ∈ v'.ids ∧ v'.index < k := by
      intro b hb hd'
      have hd : g.isDone completed b = false :=
        Bool.eq_false_iff.mpr fun hd => Bool.eq_false_iff.mp hd' (isDone_of_subset hsub hd)
      obtain ⟨v, hv, hbv, hlt⟩ := hearly.after w hw i hi b hb hd
      obtain ⟨j, hj, rfl⟩ := List.mem_map.mp hbv
      obtain ⟨v', hv', hj', hle⟩ := ih v.index (hk ▸ hlt) hv hj hd' rfl
      exact ⟨v', hv', List.mem_map_of_mem hj', by omega⟩
    obtain ⟨w', hw', hi'⟩ := hok'.mem_waves hn hlast (hok.mem_items w hw i hi) hnot fun b hb => by
      by_cases hd : g.isDone completed' b = true
      · exact .inl hd
      · obtain ⟨v', hv', hbv', -⟩ := hbefore b hb (Bool.eq_false_iff.mpr hd)
        exact .inr (List.mem_flatMap.mpr ⟨v', hv', hbv'⟩)
    refine ⟨w', hw', hi', ?_⟩
    rcases hearly'.tight w' hw' i hi' with h0 | ⟨b, hb, hd, v, hv, hbv, he⟩
    · omega
    · obtain ⟨v', hv', hbv', hlt⟩ := hbefore b hb hd
      have hvv' : v = v' := hok'.eq_of_mem hv hv' hbv hbv'
      subst hvv'
      omega

theorem exists_waves (h : Built items external policy g) (hacyclic : ¬ ∃ x, TransGen g.Waits x x)
    (completed : StringSet) : ∃ ws, g.waves completed = .ok ws := by
  cases hws : g.waves completed with
  | ok ws => exact ⟨ws, rfl⟩
  | error e =>
    obtain ⟨x, hx⟩ := (waves_eq_error completed h).1.mp ⟨e, hws⟩
    exact absurd ⟨x, TransGen.mono (fun _ _ hab => hab.waits) _ _ hx⟩ hacyclic

/-- Without a cycle the waves can be arranged whatever is completed. When more is completed, each item that is not is in
a wave that comes no later than before, and nothing that is completed is in a wave. -/
theorem waves_le_of_build (hg : Graph.build items external policy = .ok g) (hacyclic : ¬ ∃ x, TransGen g.Waits x x)
    (hsub : ∀ x ∈ completed, x ∈ completed') :
    ∃ ws ws', g.waves completed = .ok ws ∧ g.waves completed' = .ok ws' ∧
      (∀ w ∈ ws, ∀ i ∈ w.items, i.id ∉ completed' → ∃ w' ∈ ws', i ∈ w'.items ∧ w'.index ≤ w.index) ∧
      ∀ w' ∈ ws', ∀ i ∈ w'.items, i.id ∉ completed' ∧ i.id ∉ external := by
  have h := built_of_build hg
  have hn := h.ids_nodup
  obtain ⟨ws, hws⟩ := exists_waves h hacyclic completed
  obtain ⟨ws', hws'⟩ := exists_waves h hacyclic completed'
  obtain ⟨done, hfrom, -⟩ := waves_eq_ok hws
  obtain ⟨done', hfrom', -⟩ := waves_eq_ok hws'
  have hok := wavesFrom_ok hn (g.size + 1) 0 completed
  have hok' := wavesFrom_ok hn (g.size + 1) 0 completed'
  have hearly := wavesFrom_earliest hn (g.size + 1) 0 completed
  have hearly' := wavesFrom_earliest hn (g.size + 1) 0 completed'
  have hlast := ready_waves hn completed'
  rw [hfrom] at hok hearly
  rw [hfrom'] at hok' hearly' hlast
  have hnotDone : ∀ x, g.isDone completed' x = false ↔ x ∉ completed' ∧ x ∉ external := fun x => by
    rw [← Bool.not_eq_true, Graph.isDone_iff, h.external, not_or]
  refine ⟨ws, ws', hws, hws', fun w hw i hi hnot => ?_, fun w' hw' i hi => ?_⟩
  · have hfresh := hok.fresh i.id (List.mem_flatMap.mpr ⟨w, hw, List.mem_map_of_mem hi⟩)
    have hext : i.id ∉ external := by
      intro he
      rw [Graph.isDone_iff.mpr (.inr (h.external ▸ he))] at hfresh
      cases hfresh
    exact index_le_of_subset hn hsub hok hearly hok' hearly' hlast hw hi ((hnotDone i.id).mpr ⟨hnot, hext⟩)
  · exact (hnotDone i.id).mp (hok'.fresh i.id (List.mem_flatMap.mpr ⟨w', hw', List.mem_map_of_mem hi⟩))

/-- The item `d` waits for `a` and for `c`, which is the last of three in a row. -/
def detour : List Item :=
  [{ id := "a" }, { id := "b", blockedBy := .ofList ["a", "old"] }, { id := "c", blockedBy := .ofList ["b"] },
    { id := "d", blockedBy := .ofList ["a", "c"] }, { id := "e", blockedBy := .ofList ["d"] }]

/-- When `c` is completed as well, before what it waits for, `d` need no longer come after it. -/
theorem waves_le_of_detour : ∃ g ws ws', Graph.build detour (.ofList ["old"]) .block = .ok g ∧
    g.waves ∅ = .ok ws ∧ g.waves (.ofList ["c"]) = .ok ws' ∧
    ws.map Wave.ids = [["a"], ["b"], ["c"], ["d"], ["e"]] ∧ ws'.map Wave.ids = [["a"], ["b", "d"], ["e"]] ∧
    (¬ ∃ x, TransGen g.Waits x x) ∧ (∀ x ∈ (∅ : StringSet), x ∈ StringSet.ofList ["c"]) ∧
    (∀ w ∈ ws, ∀ i ∈ w.items, i.id ∉ StringSet.ofList ["c"] → ∃ w' ∈ ws', i ∈ w'.items ∧ w'.index ≤ w.index) ∧
    ∀ w' ∈ ws', ∀ i ∈ w'.items, i.id ∉ StringSet.ofList ["c"] ∧ i.id ∉ StringSet.ofList ["old"] := by
  have h : (Graph.build detour (.ofList ["old"]) .block).map (fun g =>
      (g.cycles, (g.waves ∅).map (·.map Wave.ids), (g.waves (.ofList ["c"])).map (·.map Wave.ids))) =
      .ok ([], .ok [["a"], ["b"], ["c"], ["d"], ["e"]], .ok [["a"], ["b", "d"], ["e"]]) := by cbv
  obtain ⟨g, hg⟩ : ∃ g, Graph.build detour (.ofList ["old"]) .block = .ok g := build_eq_ok_of_nodup (by decide)
  rw [hg] at h
  obtain ⟨hcycles, hids, hids'⟩ : g.cycles = [] ∧
      (g.waves ∅).map (·.map Wave.ids) = .ok [["a"], ["b"], ["c"], ["d"], ["e"]] ∧
      (g.waves (.ofList ["c"])).map (·.map Wave.ids) = .ok [["a"], ["b", "d"], ["e"]] := by
    simpa only [Prod.mk.injEq] using Except.ok.inj h
  have hacyclic : ¬ ∃ x, TransGen g.Waits x x := cycles_eq_nil_iff.mp hcycles
  have hsub : ∀ x ∈ (∅ : StringSet), x ∈ StringSet.ofList ["c"] := fun x hx => by cases hx
  obtain ⟨ws, ws', hws, hws', hle, hout⟩ := waves_le_of_build hg hacyclic hsub
  rw [hws] at hids
  rw [hws'] at hids'
  exact ⟨g, ws, ws', hg, hws, hws', Except.ok.inj hids, Except.ok.inj hids', hacyclic, hsub, hle, hout⟩

end WorkWaves.Graph
