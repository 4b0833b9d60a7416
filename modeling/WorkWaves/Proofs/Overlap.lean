import WorkWaves.Proofs.Graph.Earliest
import WorkWaves.Proofs.Run.Safety

/-!
# Where waves and blocked items overlap

Whether an item is ready is judged by what is done when waves are made, but what it waits for counts as an orphan from
the time the graph is built. So an orphan that is completed in between lets an item into a wave that is still listed
as blocked. `overlap_of_build` says which items of waves these are: those that wait for such an orphan, by themselves
or through others. A plan counts them twice, and a run skips them before the first wave.
-/

namespace WorkWaves

namespace Graph

open Relation

variable {g : Graph} {items : List Item} {external completed done : StringSet} {policy : OrphanPolicy} {a b x : String}
  {ws : List Wave}

/-- An item waits for something that is not done. -/
def WaitsStill (g : Graph) (done : StringSet) (a b : String) : Prop := b ∈ g.blockersOf a ∧ g.isDone done b = false

/-- An item waits, by itself or through others that are not done, for an orphan that is completed by now. -/
def Released (g : Graph) (done : StringSet) (id : String) : Prop :=
  ∃ o ∈ g.orphans, o.blockerId ∈ done ∧ ReflTransGen (g.WaitsStill done) id o.itemId

theorem hopeless_of_released (h : g.Released done x) (hx : g.isDone done x = false) : g.Hopeless done x := by
  obtain ⟨o, ho, -, hpath⟩ := h
  induction hpath using ReflTransGen.head_induction_on with
  | refl => exact .orphan ho hx
  | head hstep _ ih => exact .behind (ih hstep.2) hstep.1 hx

/-- A hopeless item in a wave waits for an orphan that is completed by now. -/
theorem released_of_hopeless (h : Built items external .block g) {done' : StringSet} (hok : WavesOk g completed ws done')
    (hearly : Earliest g completed 0 ws) (hh : g.Hopeless completed x) (hx : x ∈ ws.flatMap Wave.ids) :
    g.Released completed x := by
  induction hh with
  | @orphan o ho _ =>
    refine ⟨o, ho, ?_, .refl⟩
    obtain ⟨w, hw, hid⟩ := List.mem_flatMap.mp hx
    obtain ⟨i, hi, hid⟩ := List.mem_map.mp hid
    -- An orphan is no item, so it is in no wave: it must be done.
    have hdone : g.isDone completed o.blockerId = true := by
      by_contra hd
      obtain ⟨v, hv, hbv, -⟩ := hearly.after w hw i hi _ (hid ▸ h.orphan_mem_blockersOf ho) (Bool.eq_false_iff.mpr hd)
      obtain ⟨j, hj, hjd⟩ := List.mem_map.mp hbv
      exact h.orphan_not_mem_ids ho (hjd ▸ ids_of_mem_items (hok.mem_items v hv j hj))
    refine (isDone_iff.mp hdone).resolve_right fun he => ?_
    rw [h.external] at he
    exact h.orphan_not_mem_completed ho he
  | @behind id b hb hmem _ ih =>
    obtain ⟨w, hw, hid⟩ := List.mem_flatMap.mp hx
    obtain ⟨i, hi, rfl⟩ := List.mem_map.mp hid
    obtain ⟨v, hv, hbv, -⟩ := hearly.after w hw i hi b hmem hb.not_done
    obtain ⟨o, ho, hc, hpath⟩ := ih (List.mem_flatMap.mpr ⟨v, hv, hbv⟩)
    exact ⟨o, ho, hc, .head ⟨hmem, hb.not_done⟩ hpath⟩

/-- An item of a wave is blocked exactly when it waits for an orphan that is completed by now. -/
theorem mem_blocked_iff_released (h : Built items external policy g) (hws : g.waves completed = .ok ws)
    (hx : x ∈ ws.flatMap Wave.ids) :
    x ∈ (g.blocked completed).map (·.itemId) ↔ policy = .block ∧ g.Released completed x := by
  obtain ⟨done', hfrom, -⟩ := waves_eq_ok hws
  have hok := wavesFrom_ok h.ids_nodup (g.size + 1) 0 completed
  have hearly := wavesFrom_earliest h.ids_nodup (g.size + 1) 0 completed
  rw [hfrom] at hok hearly
  rw [h.mem_blocked_iff]
  refine and_congr_right fun hp => ⟨fun hh => ?_, fun hr => hopeless_of_released hr (hok.fresh x hx)⟩
  subst hp
  exact released_of_hopeless h hok hearly hh hx

end Graph

namespace Plan

open WorkWaves.Graph

variable {g : Graph} {items : List Item} {external completed : StringSet} {policy : OrphanPolicy} {p : Plan}

/-- The ids of the waves of a plan are all different, and so are the blocked ones; an id is in both when it waits for an
orphan that is completed by now. -/
theorem places_of_built (h : Built items external policy g) (hp : Plan.build g completed = .ok p) :
    p.waveIds.Nodup ∧ p.blockedIds.Nodup ∧ (∀ x ∈ p.ids, g.isDone completed x = false) ∧
      ∀ x ∈ p.waveIds, x ∈ p.blockedIds ↔ policy = .block ∧ g.Released completed x := by
  obtain ⟨ws, hws, rfl⟩ := build_eq_ok hp
  obtain ⟨done', hfrom, -⟩ := waves_eq_ok hws
  have hok := wavesFrom_ok h.ids_nodup (g.size + 1) 0 completed
  rw [hfrom] at hok
  have hperm := flatMap_ids_refine_perm ws
  refine ⟨hperm.nodup_iff.mpr hok.nodup, blocked_nodup h.ids_nodup, fun x hx => ?_, fun x hx => ?_⟩
  · rcases List.mem_append.mp hx with hx | hx
    · exact hok.fresh x (hperm.mem_iff.mp hx)
    · obtain ⟨b, hb, rfl⟩ := List.mem_map.mp hx
      exact (hopeless_of_mem_blocked h.reversed hb).2.2.not_done
  · exact mem_blocked_iff_released h hws (hperm.mem_iff.mp hx)

/-- Before its first wave, a run of a plan skips just what is blocked. -/
theorem status?_of_prepare (h : Built items external policy g) (hp : Plan.build g completed = .ok p) {σ : Type}
    {env : Surroundings σ} {I : σ → Prop} {order : RunOrder} {state : RunState} {world : σ} (ho : order.plan = p)
    (henv : env.Steady I) (hw : I world) (hstate : state.Fresh completed) :
    ∃ q, Execution.prepare env order { world := world, state := state } = .ok q ∧ ∀ x ∈ p.ids,
      (x ∈ p.blockedIds → q.state.status? x = some .skipped) ∧
      (x ∉ p.blockedIds → q.state.status? x = some .pending) := by
  subst ho
  obtain ⟨-, hnb, hfresh, -⟩ := places_of_built h hp
  have hnotin : ∀ x ∈ order.plan.ids, x ∉ completed := fun x hx hc => by
    have := hfresh x hx
    rw [Graph.isDone_iff.mpr (.inl hc)] at this
    cases this
  have hpend : ∀ x ∈ order.plan.ids, (order.plan.ids.foldl RunState.register state).status? x = some .pending :=
    fun x hx => congrArg Prod.fst (hstate.stand_foldl_register hnotin hx)
  obtain ⟨q, hq, -, hblocked, hother⟩ := Execution.foldlM_skipBlocked_eq_ok henv
    (p := Execution.announce env order { world := world, state := order.plan.ids.foldl RunState.register state })
    (l := order.plan.blocked)
    ((henv.tell _ _ hw).trans (henv.tell _ _ (henv.tell _ _ hw).kept)).kept hnb fun b hb =>
      hpend b.itemId (List.mem_append_right _ (List.mem_map_of_mem hb))
  refine ⟨q, hq, fun x hx => ⟨fun hb => ?_, fun hb => ?_⟩⟩
  · obtain ⟨b, hmem, rfl⟩ := List.mem_map.mp hb
    exact congrArg Prod.fst (hblocked b hmem)
  · exact (congrArg Prod.fst (hother x hb)).trans (hpend x hx)

/-- For all that may be completed when waves are made: an item of a wave is blocked too exactly when orphans block and
it waits, by itself or through others, for an orphan that is completed by now. A plan counts such an item twice, and
every run of it skips the item before the first wave; it counts all other items of its waves once, and they are
pending then. -/
theorem overlap_of_build (hg : Graph.build items external policy = .ok g) (completed : StringSet) :
    (∀ ws, g.waves completed = .ok ws → ∀ x ∈ ws.flatMap Wave.ids,
      x ∈ (g.blocked completed).map (·.itemId) ↔ policy = .block ∧ g.Released completed x) ∧
    ∀ p, Plan.build g completed = .ok p → p.total = p.ids.length ∧
      ((∀ o ∈ g.orphans, o.blockerId ∉ completed) → p.ids.Nodup) ∧
      (∀ x ∈ p.waves.flatMap RefinedWave.ids,
        p.ids.count x = 2 ∧ policy = .block ∧ g.Released completed x ∨
        p.ids.count x = 1 ∧ ¬ (policy = .block ∧ g.Released completed x)) ∧
      ∀ {σ : Type} (env : Surroundings σ) (I : σ → Prop) (order : RunOrder) (state : RunState) (world : σ),
        order.plan = p → env.Steady I → I world → state.Fresh completed →
        ∃ q, Execution.prepare env order { world := world, state := state } = .ok q ∧
          ∀ x ∈ p.waves.flatMap RefinedWave.ids,
            q.state.status? x = some .skipped ∧ policy = .block ∧ g.Released completed x ∨
            q.state.status? x = some .pending ∧ ¬ (policy = .block ∧ g.Released completed x) := by
  have h := built_of_build hg
  refine ⟨fun ws hws x hx => mem_blocked_iff_released h hws hx, fun p hp => ?_⟩
  obtain ⟨hnw, hnb, -, hboth⟩ := places_of_built h hp
  refine ⟨total_eq p, fun hfree => ?_, fun x hx => ?_, fun env I order state world ho henv hw hstate => ?_⟩
  · rw [ids_eq, List.nodup_append]
    refine ⟨hnw, hnb, ?_⟩
    rintro x hx y hy rfl
    obtain ⟨-, o, ho, hc, -⟩ := (hboth x hx).mp hy
    exact hfree o ho hc
  · have hcount : p.ids.count x = 1 + p.blockedIds.count x := by
      rw [ids_eq, List.count_append, List.count_eq_one_of_mem hnw hx]
    by_cases hb : x ∈ p.blockedIds
    · exact .inl ⟨by rw [hcount, List.count_eq_one_of_mem hnb hb], (hboth x hx).mp hb⟩
    · exact .inr ⟨by rw [hcount, List.count_eq_zero_of_not_mem hb], fun hr => hb ((hboth x hx).mpr hr)⟩
  · obtain ⟨q, hq, hstatus⟩ := status?_of_prepare h hp ho henv hw hstate
    refine ⟨q, hq, fun x hx => ?_⟩
    obtain ⟨hskipped, hpending⟩ := hstatus x (List.mem_append_left _ hx)
    by_cases hb : x ∈ p.blockedIds
    · exact .inl ⟨hskipped hb, (hboth x hx).mp hb⟩
    · exact .inr ⟨hpending hb, fun hr => hb ((hboth x hx).mpr hr)⟩

/-- `a` waits for an orphan, and `b` for `a`. -/
def haunted : List Item := [{ id := "a", blockedBy := .ofList ["ghost"] }, { id := "b", blockedBy := .ofList ["a"] }]

theorem exists_haunted : ∃ g p, Graph.build haunted ∅ .block = .ok g ∧ Plan.build g (.ofList ["ghost"]) = .ok p ∧
    p.waves.map RefinedWave.ids = [["a"], ["b"]] ∧ p.blocked.map (·.itemId) = ["a", "b"] ∧ p.total = 4 := by
  have h : ((Graph.build haunted ∅ .block).bind fun g => (Plan.build g (.ofList ["ghost"])).map fun p =>
      (p.waves.map RefinedWave.ids, p.blocked.map (·.itemId), p.total)) =
      .ok ([["a"], ["b"]], ["a", "b"], 4) := by cbv
  obtain ⟨g, p, hg, hp, hv⟩ := exists_of_bind_eq_ok h
  obtain ⟨hwaves, hrest⟩ := Prod.mk.inj hv
  obtain ⟨hblocked, htotal⟩ := Prod.mk.inj hrest
  exact ⟨g, p, hg, hp, hwaves, hblocked, htotal⟩

/-- An orphan that is completed by now lets items into waves that are blocked as well, and each counts twice. -/
theorem overlap_of_ghost : ∃ g ws p, Graph.build haunted ∅ .block = .ok g ∧ g.waves (.ofList ["ghost"]) = .ok ws ∧
    Plan.build g (.ofList ["ghost"]) = .ok p ∧ "a" ∈ ws.flatMap Wave.ids ∧
    "a" ∈ (g.blocked (.ofList ["ghost"])).map (·.itemId) ∧ haunted.length = 2 ∧ p.total = 4 := by
  obtain ⟨g, p, hg, hp, hwaves, hblocked, htotal⟩ := exists_haunted
  obtain ⟨ws, hws, rfl⟩ := build_eq_ok hp
  refine ⟨g, ws, _, hg, hws, hp, ?_, ?_, rfl, htotal⟩
  · refine (flatMap_ids_refine_perm ws).mem_iff.mp ?_
    rw [List.flatMap_def, hwaves]
    decide
  · rw [hblocked]
    decide

theorem overlap_of_haunted : ∃ g p, Graph.build haunted ∅ .block = .ok g ∧
    Plan.build g (.ofList ["ghost"]) = .ok p ∧ p.waves.map RefinedWave.ids = [["a"], ["b"]] ∧
    (∀ ws, g.waves (.ofList ["ghost"]) = .ok ws → ∀ x ∈ ws.flatMap Wave.ids,
      x ∈ (g.blocked (.ofList ["ghost"])).map (·.itemId) ↔
        OrphanPolicy.block = .block ∧ g.Released (.ofList ["ghost"]) x) ∧
    p.total = p.ids.length ∧
    (∀ x ∈ p.waves.flatMap RefinedWave.ids,
      p.ids.count x = 2 ∧ OrphanPolicy.block = .block ∧ g.Released (.ofList ["ghost"]) x ∨
      p.ids.count x = 1 ∧ ¬ (OrphanPolicy.block = .block ∧ g.Released (.ofList ["ghost"]) x)) ∧
    ∃ q, Execution.prepare (.fullDisk fun _ => false) ⟨"run", p, ⟨2, 1000, false⟩, {}⟩
        { world := 0, state := .new default } = .ok q ∧
      ∀ x ∈ p.waves.flatMap RefinedWave.ids,
        q.state.status? x = some .skipped ∧ OrphanPolicy.block = .block ∧ g.Released (.ofList ["ghost"]) x ∨
        q.state.status? x = some .pending ∧ ¬ (OrphanPolicy.block = .block ∧ g.Released (.ofList ["ghost"]) x) := by
  obtain ⟨g, p, hg, hp, hwaves, -, -⟩ := exists_haunted
  obtain ⟨hover, hall⟩ := overlap_of_build hg (.ofList ["ghost"])
  obtain ⟨htotal, -, hcount, hrun⟩ := hall p hp
  exact ⟨g, p, hg, hp, hwaves, hover, htotal, hcount, hrun _ _ _ _ _ rfl
    (Surroundings.fullDisk_steady fun _ _ h => h) trivial RunState.fresh_new⟩

end Plan

end WorkWaves
