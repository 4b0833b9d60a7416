import WorkWaves.Cli.Planning
import WorkWaves.Proofs.Plan
import WorkWaves.Proofs.Separation

/-!
# Plans made from files

What is complete comes from the manifest, from the archive and from whoever asks for the plan. None of it is planned,
and everything else in the manifest is (`fresh_of_draft`, `mem_ids_of_draft`). A plan has no more waves than there are
items (`length_waves_le`).
-/

namespace WorkWaves

namespace Plan

variable {items : List Item} {completed : StringSet} {policy : OrphanPolicy} {g : Graph} {p : Plan}

theorem items_ne_nil (hp : Plan.build g completed = .ok p) : ∀ w ∈ p.waves, w.items ≠ [] := by
  obtain ⟨ws, hws, rfl⟩ := build_eq_ok hp
  obtain ⟨done, hfrom, -⟩ := Graph.waves_eq_ok hws
  refine Refine.items_ne_nil_of_mem_splitFrom fun w hw => ?_
  have hmem : w ∈ (g.wavesFrom (g.size + 1) 0 completed).1 := by rwa [hfrom]
  exact Graph.items_ne_nil_of_mem_wavesFrom hmem

theorem length_le_length_flatMap_ids {ws : List RefinedWave} (h : ∀ w ∈ ws, w.items ≠ []) :
    ws.length ≤ (ws.flatMap RefinedWave.ids).length := by
  induction ws with
  | nil => exact Nat.zero_le _
  | cons w ws ih =>
    obtain ⟨hw, hws⟩ := List.forall_mem_cons.mp h
    have hlength : w.ids.length = w.items.length := List.length_map _
    have hpos : 0 < w.items.length := List.length_pos_iff.mpr hw
    have hrest := ih hws
    rw [List.length_cons, List.flatMap_cons, List.length_append]
    omega

theorem length_waves_le (hg : Graph.build items completed policy = .ok g) (hp : Plan.build g completed = .ok p) :
    p.waves.length ≤ items.length := by
  have hperm := (sound_of_build (Graph.built_of_build hg) hp).perm.length_eq
  have hle : p.waves.length ≤ p.waveIds.length := length_le_length_flatMap_ids (items_ne_nil hp)
  simp only [List.length_append, List.length_map] at hperm
  omega

end Plan

namespace Planning

variable {files : FileTree} {root path : String} {s : Settings} {besides : StringSet} {d : Draft}

theorem draft_eq_ok : draft files root s path besides = .ok d ↔
    manifest files path = .ok d.manifest ∧ completed files root s d.manifest besides = .ok d.completed ∧
      Graph.build d.manifest.items d.completed s.scheduler.orphanPolicy = .ok d.graph ∧
      Plan.build d.graph d.completed = .ok d.plan := by
  obtain ⟨m, done, g, p⟩ := d
  constructor
  · intro h
    unfold draft at h
    cases hm : manifest files path with
    | error e => simp [hm, bind, Except.bind] at h
    | ok m =>
      cases hc : completed files root s m besides with
      | error e => simp [hm, hc, bind, Except.bind] at h
      | ok done =>
        cases hg : Graph.build m.items done s.scheduler.orphanPolicy with
        | error e => simp [hm, hc, hg, bind, Except.bind, Except.mapError] at h
        | ok g =>
          cases hp : Plan.build g done with
          | error e => simp [hm, hc, hg, hp, bind, Except.bind, Except.mapError] at h
          | ok p =>
            simp only [hm, hc, hg, hp, bind, Except.bind, Except.mapError, pure, Except.pure, Except.ok.injEq] at h
            cases h
            exact ⟨rfl, hc, hg, hp⟩
  · rintro ⟨hm, hc, hg, hp⟩
    unfold draft
    simp only [hm, hc, hg, hp, bind, Except.bind, Except.mapError, pure, Except.pure]

theorem mem_completed_of_besides {m : Manifest} {done : StringSet} (h : completed files root s m besides = .ok done)
    {id : String} (hid : id ∈ besides) : id ∈ done := by
  unfold completed at h
  split at h
  · cases h
    exact StringSet.mem_union.mpr (.inr hid)
  · cases h

theorem sound_of_draft (h : draft files root s path besides = .ok d) :
    d.plan.Sound d.manifest.items d.completed s.scheduler.orphanPolicy := by
  obtain ⟨-, -, hg, hp⟩ := draft_eq_ok.mp h
  exact Plan.sound_of_build (Graph.built_of_build hg) hp

/-- Nothing is planned that is complete besides. -/
theorem fresh_of_draft (h : draft files root s path besides = .ok d) {id : String} (hid : id ∈ besides) :
    id ∉ d.plan.ids := by
  obtain ⟨-, hc, -⟩ := draft_eq_ok.mp h
  exact fun hids => (sound_of_draft h).fresh id hids (mem_completed_of_besides hc hid)

/-- Each item of the manifest that is not complete is planned. -/
theorem mem_ids_of_draft (h : draft files root s path besides = .ok d) {i : Item} (hi : i ∈ d.manifest.items)
    (hid : i.id ∉ d.completed) : i.id ∈ d.plan.ids := by
  have hsound := sound_of_draft h
  have hmem := hsound.perm.mem_iff.mpr (List.mem_map_of_mem (f := (·.id)) hi)
  rw [List.append_assoc, ← Plan.ids_eq] at hmem
  exact (List.mem_append.mp hmem).resolve_left fun hdone => hid (hsound.done i.id hdone)

theorem length_waves_le_of_draft (h : draft files root s path besides = .ok d) :
    d.plan.waves.length ≤ d.manifest.items.length := by
  obtain ⟨-, -, hg, hp⟩ := draft_eq_ok.mp h
  exact Plan.length_waves_le hg hp

end Planning

end WorkWaves
