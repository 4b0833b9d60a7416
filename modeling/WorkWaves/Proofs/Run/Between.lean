import WorkWaves.Proofs.Plan
import WorkWaves.Proofs.Run.Wave

/-!
# Between the waves of a run

`Between` says how a run stands before a wave: the items of earlier waves are done with, those of later waves are
as they were in the beginning. It holds before the first wave (`prepare_between`), and a wave that is carried out
keeps it (`Between.step`).
-/

namespace WorkWaves

namespace Plan.Sound

variable {items : List Item} {completed : StringSet} {policy : OrphanPolicy} {p : Plan} {pre post : List RefinedWave}
  {w : RefinedWave}

theorem ids_nodup (h : Sound items completed policy p) : p.ids.Nodup := by
  have hn := h.perm.nodup_iff.mpr h.nodup
  rw [List.append_assoc, List.nodup_append] at hn
  exact hn.2.1

/-- The blocked ids are all different, and no wave has them. -/
theorem blocked_nodup (h : Sound items completed policy p) :
    p.blockedIds.Nodup ∧ ∀ id ∈ p.blockedIds, id ∉ p.waveIds := by
  have hn := h.ids_nodup
  rw [ids_eq, List.nodup_append] at hn
  exact ⟨hn.2.1, fun id hid hmem => hn.2.2 id hmem id hid rfl⟩

/-- The ids of a wave are all different, and no other wave has them. -/
theorem wave_nodup (h : Sound items completed policy p) (hs : p.waves = pre ++ w :: post) :
    w.ids.Nodup ∧ ∀ id ∈ w.ids, id ∉ pre.flatMap RefinedWave.ids ∧ id ∉ post.flatMap RefinedWave.ids := by
  have hn := h.ids_nodup
  rw [ids_eq, List.nodup_append, waveIds, hs, List.flatMap_append, List.flatMap_cons, List.nodup_append,
    List.nodup_append] at hn
  obtain ⟨⟨-, ⟨hw, -, hpost⟩, hpre⟩, -, -⟩ := hn
  refine ⟨hw, fun id hid => ⟨fun hmem => ?_, fun hmem => ?_⟩⟩
  · exact hpre id hmem id (List.mem_append_left _ hid) rfl
  · exact hpost id hid id hmem rfl

/-- What an item of a wave waits for is completed beforehand or stands in an earlier wave. -/
theorem blockersOf_earlier (h : Sound items completed policy p) (hs : p.waves = pre ++ w :: post) {i : Item}
    (hi : i ∈ w.items) {b : String} (hb : b ∈ p.blockersOf i.id) :
    b ∈ completed ∨ b ∈ pre.flatMap RefinedWave.ids := by
  have hmem := h.mem_items w (hs ▸ by simp) i hi
  have hturn := h.inTurn
  rw [hs, List.map_append, List.map_cons] at hturn
  refine (hturn.of_split hi ((h.mem_blockersOf i hmem b).mp hb)).imp_right ?_
  rintro ⟨js, hjs, hbj⟩
  obtain ⟨v, hv, rfl⟩ := List.mem_map.mp hjs
  exact List.mem_flatMap.mpr ⟨v, hv, hbj⟩

theorem not_mem_completed (h : Sound items completed policy p) (hs : p.waves = pre ++ w :: post) {id : String}
    (hid : id ∈ w.ids) : id ∉ completed := by
  refine h.fresh id ?_
  rw [ids_eq, waveIds, hs]
  simp [hid]

/-- No item of a wave waits for another one of it. -/
theorem blockersOf_apart (h : Sound items completed policy p) (hs : p.waves = pre ++ w :: post) {i : Item}
    (hi : i ∈ w.items) {b : String} (hb : b ∈ p.blockersOf i.id) : b ∉ w.ids := by
  intro hmem
  rcases h.blockersOf_earlier hs hi hb with hb | hb
  · exact h.not_mem_completed hs hmem hb
  · exact ((h.wave_nodup hs).2 b hmem).1 hb

end Plan.Sound

namespace Execution

variable {σ : Type} {env : Surroundings σ} {I : σ → Prop} {order : RunOrder} {p q : Progress σ}
  {items : List Item} {completed : StringSet} {policy : OrphanPolicy} {pre post : List RefinedWave}
  {E : String → Option Status × Option String → Prop} {old : String → Option String} {w : RefinedWave}

/-- The items of the waves before have ended as `E` says, and those of the waves to come are pending, with the
reasons that there were in the beginning. -/
structure Between (E : String → Option Status × Option String → Prop) (old : String → Option String)
    (pre post : List RefinedWave) (s : RunState) : Prop where
  ended : ∀ id ∈ pre.flatMap RefinedWave.ids, E id (s.stand id)
  pending : ∀ id ∈ post.flatMap RefinedWave.ids, s.stand id = (some .pending, old id)

theorem Between.wave_done (h : Between E old pre (w :: post) p.state) (henv : env.Steady I) (hp : I p.world)
    (hplan : order.plan.Sound items completed policy) (hs : order.plan.waves = pre ++ w :: post) :
    ∃ t q, t.wave = w ∧ Done env I order p t q := by
  refine Execution.wave_done henv hp (hplan.wave_nodup hs).1 (fun id hid => ?_) fun i hi b hb =>
    hplan.blockersOf_apart hs hi hb
  exact congrArg Prod.fst (h.pending id (by simp [hid]))

theorem Between.step {t : Turn σ} (h : Between E old pre (t.wave :: post) p.state) (hd : Done env I order p t q)
    (hplan : order.plan.Sound items completed policy) (hs : order.plan.waves = pre ++ t.wave :: post)
    (hE : ∀ i ∈ t.wave.items, E i.id (q.state.stand i.id)) : Between E old (pre ++ [t.wave]) post q.state := by
  have hapart := (hplan.wave_nodup hs).2
  refine ⟨fun id hid => ?_, fun id hid => ?_⟩
  · rw [List.flatMap_append, List.mem_append] at hid
    rcases hid with hid | hid
    · rw [hd.others id fun hmem => (hapart id hmem).1 hid]
      exact h.ended id hid
    · rw [List.flatMap_singleton] at hid
      obtain ⟨i, hi, rfl⟩ := List.mem_map.mp hid
      exact hE i hi
  · rw [hd.others id fun hmem => (hapart id hmem).2 hid]
    exact h.pending id (by simp [hid])

theorem Between.congr {s s' : RunState} (h : Between E old pre post s) (hs : s'.stand = s.stand) :
    Between E old pre post s' :=
  ⟨fun id hid => hs ▸ h.ended id hid, fun id hid => hs ▸ h.pending id hid⟩

/-- Saving changes the world and nothing else, also where it fails. -/
theorem save_eq (henv : env.Steady I) (hp : I p.world) :
    env.Onward I p.world (env.save p.state p.world).2 ∧
      save env p = match (env.save p.state p.world).1 with
        | .ok () => .ok { p with world := (env.save p.state p.world).2 }
        | .error e => .error ⟨.state e, { p with world := (env.save p.state p.world).2 }⟩ := by
  refine ⟨henv.save _ _ hp, ?_⟩
  unfold save
  cases env.save p.state p.world with
  | mk r w =>
    cases r <;> rfl

/-- A wave that is closed leaves all items where they stand. -/
theorem of_close_eq_ok (henv : env.Steady I) (hp : I p.world) (h : close env w p = .ok q) :
    env.Onward I p.world q.world ∧ q.outcomes = p.outcomes ∧ q.state.stand = p.state.stand := by
  obtain ⟨hworld, hsave⟩ := save_eq (p := { p with state := { p.state with waveIndex := w.wave.index + 1 } }) henv hp
  unfold close at h
  simp only [hsave, bind, Except.bind] at h
  cases hr : (env.save { p.state with waveIndex := w.wave.index + 1 } p.world).1 with
  | error e =>
    rw [hr] at h
    cases h
  | ok u =>
    rw [hr] at h
    cases h
    exact ⟨hworld.trans (henv.tell _ _ hworld.kept), rfl, rfl⟩

/-- Before the first wave, the items that can never run are skipped, and all others are pending. -/
theorem prepare_between (henv : env.Steady I) (hp : I p.world) (hplan : order.plan.Sound items completed policy)
    (hfresh : p.state.Fresh completed) :
    ∃ q, prepare env order p = .ok q ∧ env.Onward I p.world q.world ∧ q.state.waveIndex = 0 ∧
      (∀ b ∈ order.plan.blocked, q.state.stand b.itemId = (some .skipped, some b.reason.message)) ∧
      (∀ x ∉ order.plan.ids, q.state.stand x = p.state.stand x) ∧
      Between E p.state.reason? [] order.plan.waves q.state := by
  have hpend : ∀ id ∈ order.plan.ids, (order.plan.ids.foldl RunState.register p.state).stand id =
      (some .pending, p.state.reason? id) := fun id hid => hfresh.stand_foldl_register hplan.fresh hid
  obtain ⟨hnb, hdisj⟩ := hplan.blocked_nodup
  have h₁ : env.Onward I p.world (announce env order
      { p with state := order.plan.ids.foldl RunState.register p.state }).world :=
    (henv.tell _ _ hp).trans (henv.tell _ _ (henv.tell _ _ hp).kept)
  obtain ⟨q, hq, hlater, hblocked, hother⟩ := foldlM_skipBlocked_eq_ok henv h₁.kept hnb fun b hb =>
    congrArg Prod.fst (hpend b.itemId (List.mem_append_right _ (List.mem_map_of_mem hb)))
  refine ⟨q, hq, h₁.trans hlater.world, ?_, hblocked, fun x hx => ?_, by simp, fun id hid => ?_⟩
  · rw [hlater.waveIndex]
    exact RunState.waveIndex_foldl_register.trans hfresh.waveIndex
  · rw [hother x fun hmem => hx (List.mem_append_right _ hmem)]
    exact RunState.stand_foldl_register.trans (by rw [if_neg hx]; rfl)
  · rw [hother id fun hmem => hdisj id hmem hid]
    exact hpend id (List.mem_append_left _ hid)

end Execution

end WorkWaves
