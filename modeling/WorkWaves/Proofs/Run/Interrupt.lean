import WorkWaves.Proofs.Run.Diary
import WorkWaves.Proofs.Run.Endings
import WorkWaves.Proofs.Run.Snapshots

/-!
# An interrupt loses nothing

Whenever an interrupt comes for good, the run of a plan stops after the wave in which it comes and leaves each item
either as it was or done with. `LosesNothing` says so of a run together with its turns and with the diaries of the
workers; it holds of each run whose saves succeed (`losesNothing_of_build`).

Whether to stop is asked in five places: before a wave, by a worker before it begins, while its fixer runs and when it
has got the lock, and after a wave. Any answers go together in which no `false` comes after a `true`.
-/

namespace WorkWaves

open Dialogue

namespace Execution

variable {σ : Type} (env : Surroundings σ) (order : RunOrder)

/-- What the workers of a turn asked and heard. -/
def Turn.diaries (t : Turn σ) : List Diary :=
  Pool.diaries env (setting order t.wave.wave.index) t.items t.opening.world

/-- The world when all workers of a turn are back; in it the run is asked whether to go on. -/
def Turn.closing (t : Turn σ) : σ := (Pool.run env (setting order t.wave.wave.index) t.items t.opening.world).2

/-- Turns that follow each other from a point of a run on. No interrupt is there when a wave is begun, and none when
the wave before it is over. -/
inductive Succession : Progress σ → List (Turn σ) → Prop
  | nil (p : Progress σ) : Succession p []
  | last {p : Progress σ} {t : Turn σ} (hi : env.interrupted p.world = false)
      (ho : opening env order t.wave p = .ok (t.items, t.opening)) : Succession p [t]
  | cons {p q q' : Progress σ} {t : Turn σ} {ts : List (Turn σ)} (hi : env.interrupted p.world = false)
      (ho : opening env order t.wave p = .ok (t.items, t.opening))
      (hc : carryOut env order t.wave t.items t.opening = .ok q) (hi' : env.interrupted (t.closing env order) = false)
      (hq : close env t.wave q = .ok q') (hs : Succession q' ts) : Succession p (t :: ts)

variable {env order}

/-- After a wave at whose end there is an interrupt, no wave is begun. -/
theorem Succession.noLater {p : Progress σ} {ts : List (Turn σ)} (h : Succession env order p ts) :
    ts.Pairwise fun t _ => env.interrupted (t.closing env order) = false := by
  induction h with
  | nil => exact .nil
  | last => exact List.pairwise_singleton _ _
  | cons _ _ _ hi' _ _ ih => exact List.pairwise_cons.mpr ⟨fun _ _ => hi', ih⟩

variable {I : σ → Prop} {p q r : Progress σ} {items : List Item} {completed : StringSet} {policy : OrphanPolicy}
  {pre post : List RefinedWave} {old : String → Option String} {t : Turn σ}

/-! ### One turn -/

theorem Between.opening_pending (h : Between Ended old pre (t.wave :: post) p.state) (henv : env.Steady I)
    (hp : I p.world) (hplan : order.plan.Sound items completed policy)
    (hs : order.plan.waves = pre ++ t.wave :: post) (hd : Done env I order p t q) :
    (t.items.map (·.id)).Nodup ∧ ∀ i ∈ t.items, t.opening.state.status? i.id = some .pending := by
  have hn := (hplan.wave_nodup hs).1
  have hpend : ∀ id ∈ t.wave.ids, p.state.status? id = some .pending := fun id hid =>
    congrArg Prod.fst (h.pending id (by simp [hid]))
  obtain ⟨p', hp', -, hstand, -⟩ := opening_eq_ok order henv hp hn hpend fun i hi b hb =>
    hplan.blockersOf_apart hs hi hb
  obtain ⟨-, rfl⟩ := Prod.mk.inj (Except.ok.inj (hd.opened.symm.trans hp'))
  refine ⟨hn.sublist (hd.items ▸ List.filter_sublist.map _), fun i hi => ?_⟩
  obtain ⟨hi, hu⟩ := hd.mem_items.mp hi
  have hsame := hstand i hi
  rw [hu] at hsame
  exact (congrArg Prod.fst hsame).trans (hpend i.id (List.mem_map_of_mem hi))

theorem Done.enterable (hd : Done env I order p t q) (henv : env.Steady I) (hn : (t.items.map (·.id)).Nodup)
    (hpend : ∀ i ∈ t.items, t.opening.state.status? i.id = some .pending) : Enterable t.opening.state t.returned := by
  rw [hd.ran]
  exact enterable_of_ran (Pool.run_ran (setting order t.wave.wave.index) henv t.items hd.before.world.kept) hn hpend

/-- When a turn is over, the state says of each outcome what it says itself. -/
theorem Done.reported (hd : Done env I order p t q) (henv : env.Steady I) (hn : (t.items.map (·.id)).Nodup)
    (hpend : ∀ i ∈ t.items, t.opening.state.status? i.id = some .pending) :
    q.world = t.closing env order ∧ ∀ o ∈ t.returned, q.state.status? o.itemId = some o.status := by
  have henter := hd.enterable henv hn hpend
  have hcarried := hd.carried
  rw [carryOut_eq] at hcarried
  unfold Turn.closing
  rw [hd.ran] at henter ⊢
  generalize Pool.run env (setting order t.wave.wave.index) t.items t.opening.world = r at henter hcarried ⊢
  obtain ⟨q', hq', hw, -, -, hstand, -⟩ := foldlM_enter_eq_ok env (p := { t.opening with world := r.2 })
    henter.nodup henter.pending henter.started
  simp only [hq', bind, Except.bind] at hcarried
  cases hcarried
  refine ⟨hw, fun o ho => ?_⟩
  have hsame : q'.state.status? o.itemId = _ := congrArg Prod.fst (hstand o ho)
  refine hsame.trans ?_
  unfold Execution.entered
  cases hstarted : o.started with
  | true => rfl
  | false =>
    rw [henter.notStarted o ho hstarted]
    exact henter.pending o ho

theorem Done.skipped_of_not_mem (hd : Done env I order p t q) {id : String} (hid : id ∈ t.wave.ids)
    (hn : id ∉ t.items.map (·.id)) : q.state.status? id = some .skipped := by
  obtain ⟨i, hi, rfl⟩ := List.mem_map.mp hid
  cases hu : unmetBlocker order.plan p.state i.id with
  | some b => exact congrArg Prod.fst (hd.skipped i hi b hu)
  | none => exact absurd (List.mem_map_of_mem (hd.mem_items.mpr ⟨hi, hu⟩)) hn

/-! ### Turn after turn -/

variable (env I order) in
/-- What came of some waves when no save failed: the turns, whether an interrupt ended the run, and how far it is. -/
structure Watched (post : List RefinedWave) (p : Progress σ) (turns : List (Turn σ)) (b : Bool) (q : Progress σ) :
    Prop where
  succession : Succession env order p turns
  waves : turns.map (·.wave) <+: post
  stopped : b = true ↔ post ≠ [] ∧ ∀ t ∈ turns, t.wave.wave.index + 1 = order.plan.waves.length →
    env.interrupted (t.closing env order) = true
  each : ∀ t ∈ turns, I t.opening.world ∧ (t.items.map (·.id)).Nodup ∧ (∀ i ∈ t.items, i ∈ t.wave.items) ∧
    t.returned = (Pool.run env (setting order t.wave.wave.index) t.items t.opening.world).1
  returned : ∀ t ∈ turns, ∀ o ∈ t.returned, q.state.status? o.itemId = some o.status
  untaken : ∀ id ∈ post.flatMap RefinedWave.ids, (∀ t ∈ turns, id ∉ t.items.map (·.id)) →
    q.state.status? id = some .pending ∨ q.state.status? id = some .skipped
  others : ∀ x ∉ post.flatMap RefinedWave.ids, q.state.stand x = p.state.stand x

theorem Watched.of_nil : Watched env order I [] p [] false p where
  succession := .nil p
  waves := List.nil_prefix
  stopped := by simp
  each := by simp
  returned := by simp
  untaken := by simp
  others _ _ := rfl

theorem Watched.of_interrupted {w : RefinedWave} {rest : List RefinedWave}
    (hpend : ∀ id ∈ (w :: rest).flatMap RefinedWave.ids, p.state.status? id = some .pending) :
    Watched env order I (w :: rest) p [] true p where
  succession := .nil p
  waves := List.nil_prefix
  stopped := by simp
  each := by simp
  returned := by simp
  untaken id hid _ := .inl (hpend id hid)
  others _ _ := rfl

/-- The interrupt came in the first of the waves. -/
theorem Watched.of_cutOff {rest : List RefinedWave} (hd : Done env I order p t q) (henv : env.Steady I)
    (hn : (t.items.map (·.id)).Nodup) (hpend : ∀ i ∈ t.items, t.opening.state.status? i.id = some .pending)
    (hlater : ∀ id ∈ rest.flatMap RefinedWave.ids, id ∉ t.wave.ids ∧ p.state.status? id = some .pending)
    (hi : env.interrupted p.world = false) (hi' : env.interrupted q.world = true) (hr : r.state = q.state) :
    Watched env order I (t.wave :: rest) p [t] true r := by
  obtain ⟨hworld, hreported⟩ := hd.reported henv hn hpend
  refine ⟨.last hi hd.opened, List.prefix_append [t.wave] rest, ?_, ?_, ?_, fun id hid hnot => ?_, fun x hx => ?_⟩
  · rw [hworld] at hi'
    simp [hi']
  · exact List.forall_mem_singleton.mpr ⟨hd.before.world.kept, hn, fun i hi => (hd.mem_items.mp hi).1, hd.ran⟩
  · rw [hr]
    exact List.forall_mem_singleton.mpr hreported
  · rw [hr]
    rw [List.flatMap_cons, List.mem_append] at hid
    rcases hid with hid | hid
    · exact .inr (hd.skipped_of_not_mem hid (hnot t (List.mem_singleton_self t)))
    · obtain ⟨hid, hst⟩ := hlater id hid
      exact .inl ((congrArg Prod.fst (hd.others id hid)).trans hst)
  · rw [hr]
    refine hd.others x fun hmem => hx ?_
    rw [List.flatMap_cons]
    exact List.mem_append_left _ hmem

/-- One more wave, before the others. -/
theorem Watched.cons {rest : List RefinedWave} {turns : List (Turn σ)} {b : Bool} {q' : Progress σ}
    (h : Watched env order I rest q' turns b r) (hd : Done env I order p t q) (henv : env.Steady I)
    (hn : (t.items.map (·.id)).Nodup) (hpend : ∀ i ∈ t.items, t.opening.state.status? i.id = some .pending)
    (hplan : order.plan.Sound items completed policy) (hs : order.plan.waves = pre ++ t.wave :: rest)
    (hi : env.interrupted p.world = false) (hi' : env.interrupted q.world = false)
    (hclose : close env t.wave q = .ok q') (hstand : q'.state.stand = q.state.stand) :
    Watched env order I (t.wave :: rest) p (t :: turns) b r := by
  obtain ⟨hworld, hreported⟩ := hd.reported henv hn hpend
  rw [hworld] at hi'
  have hapart := (hplan.wave_nodup hs).2
  -- The later waves leave the items of this one alone.
  have hsame : ∀ id ∈ t.wave.ids, r.state.status? id = q.state.status? id := fun id hid =>
    congrArg Prod.fst ((h.others id (hapart id hid).2).trans (congrFun hstand id))
  have hitems : ∀ i ∈ t.items, i ∈ t.wave.items := fun i hi => (hd.mem_items.mp hi).1
  refine ⟨.cons hi hd.opened hd.carried hi' hclose h.succession, (List.prefix_cons_inj _).mpr h.waves, ?_, ?_, ?_,
    fun id hid hnot => ?_, fun x hx => ?_⟩
  · have hlast : t.wave.wave.index + 1 = order.plan.waves.length ↔ rest = [] := by
      rw [hplan.index_eq hs, hs, List.length_append, List.length_cons, ← List.length_eq_zero_iff]
      omega
    rw [h.stopped, List.forall_mem_cons, hlast, hi']
    simp
  · exact List.forall_mem_cons.mpr ⟨⟨hd.before.world.kept, hn, hitems, hd.ran⟩, h.each⟩
  · refine List.forall_mem_cons.mpr ⟨fun o ho => ?_, h.returned⟩
    obtain ⟨i, hi, hid⟩ := List.mem_map.mp (hd.returned.mem_iff.mp (List.mem_map_of_mem ho))
    rw [hsame o.itemId (hid ▸ List.mem_map_of_mem (hitems i hi))]
    exact hreported o ho
  · rw [List.flatMap_cons, List.mem_append] at hid
    rcases hid with hid | hid
    · rw [hsame id hid]
      exact .inr (hd.skipped_of_not_mem hid (hnot t (List.mem_cons_self ..)))
    · exact h.untaken id hid fun t' ht' => hnot t' (List.mem_cons_of_mem t ht')
  · rw [List.flatMap_cons, List.mem_append, not_or] at hx
    exact ((h.others x hx.2).trans (congrFun hstand x)).trans (hd.others x hx.1)

theorem watched_of_watch (henv : env.Steady I) (hplan : order.plan.Sound items completed policy)
    (hs : order.plan.waves = pre ++ post) (h : Between Ended old pre post p.state) (hp : I p.world) {b : Bool}
    (hq : (watch env order post p).2 = .ok (b, q)) :
    Watched env order I post p (watch env order post p).1 b q := by
  induction post generalizing pre p with
  | nil =>
    cases hq
    exact .of_nil
  | cons w rest ih =>
    obtain ⟨t, p₁, rfl, hd⟩ := h.wave_done henv hp hplan hs
    obtain ⟨hn, hpend⟩ := h.opening_pending henv hp hplan hs hd
    have hlater : ∀ id ∈ (t.wave :: rest).flatMap RefinedWave.ids, p.state.status? id = some .pending := fun id hid =>
      congrArg Prod.fst (h.pending id hid)
    unfold watch at hq ⊢
    split at hq
    · next hi =>
      rw [if_pos hi]
      cases hq
      exact .of_interrupted hlater
    · next hi =>
      rw [if_neg hi]
      simp only [hd.opened, hd.carried, ← hd.ran] at hq ⊢
      split at hq
      · next hi' =>
        rw [if_pos hi']
        cases hq
        refine .of_cutOff hd henv hn hpend (fun id hid => ⟨fun hmem => ?_, ?_⟩) (Bool.eq_false_iff.mpr hi) hi' rfl
        · exact ((hplan.wave_nodup hs).2 id hmem).2 hid
        · exact hlater id (by simp [hid])
      · next hi' =>
        rw [if_neg hi']
        cases hclose : close env t.wave p₁ with
        | error g =>
          rw [hclose] at hq
          cases hq
        | ok p₂ =>
          rw [hclose] at hq
          obtain ⟨hp₂, -, hstand⟩ := of_close_eq_ok henv hd.after.world.kept hclose
          have hs' : order.plan.waves = (pre ++ [t.wave]) ++ rest := by rw [hs, List.append_assoc]; rfl
          have hstep := (h.step hd hplan hs (hd.ended hi')).congr hstand
          exact (ih hs' hstep hp₂.kept hq).cons hd henv hn hpend hplan hs (Bool.eq_false_iff.mpr hi)
            (Bool.eq_false_iff.mpr hi') hclose hstand

/-! ### The diaries of a turn and the state at the end -/

section

variable {turns : List (Turn σ)} {b : Bool} {d : Diary}

theorem Watched.outcomes (h : Watched env order I post p turns b q) (ht : t ∈ turns) :
    (t.diaries env order).map (·.outcome) = t.returned :=
  (Pool.outcomes_diaries ..).trans (h.each t ht).2.2.2.symm

theorem Watched.diary_items (h : Watched env order I post p turns b q) (henv : env.Steady I) (ht : t ∈ turns) :
    ((t.diaries env order).map (·.item)).Perm t.items := by
  obtain ⟨hworld, hn, -⟩ := h.each t ht
  exact Pool.items_diaries henv hworld hn

theorem Turn.leads (hd : d ∈ t.diaries env order) :
    Leads (Worker.work (setting order t.wave.wave.index) d.item) d.past (.done d.outcome) :=
  (Pool.diaries_whole _ _ _ _ d hd).2

theorem Watched.status (h : Watched env order I post p turns b q) (ht : t ∈ turns) (hd : d ∈ t.diaries env order) :
    q.state.status? d.item.id = some d.outcome.status := by
  have hmem : d.outcome ∈ t.returned := h.outcomes ht ▸ List.mem_map_of_mem hd
  rw [← Pool.itemId_of_mem_diaries _ _ _ _ d hd]
  exact h.returned t ht _ hmem

/-- An item of the waves has a diary, or it was not taken. -/
theorem Watched.diary_or_untaken (h : Watched env order I post p turns b q) (henv : env.Steady I) {id : String}
    (hid : id ∈ post.flatMap RefinedWave.ids) : (∃ t ∈ turns, ∃ d ∈ t.diaries env order, d.item.id = id) ∨
      q.state.status? id = some .pending ∨ q.state.status? id = some .skipped := by
  by_cases htaken : ∃ t ∈ turns, id ∈ t.items.map (·.id)
  · obtain ⟨t, ht, hmem⟩ := htaken
    obtain ⟨i, hi, rfl⟩ := List.mem_map.mp hmem
    obtain ⟨d, hd, rfl⟩ := List.mem_map.mp ((h.diary_items henv ht).mem_iff.mpr hi)
    exact .inl ⟨t, ht, d, hd, rfl⟩
  · exact .inr (h.untaken id hid fun t ht hmem => htaken ⟨t, ht, hmem⟩)

theorem Watched.settled (h : Watched env order I post p turns b q) (henv : env.Steady I) {id : String}
    (hid : id ∈ post.flatMap RefinedWave.ids) :
    ∃ st, q.state.status? id = some st ∧ (st = .pending ∨ st.isTerminal = true) := by
  rcases h.diary_or_untaken henv hid with ⟨t, ht, d, hd, rfl⟩ | hst | hst
  · refine ⟨_, h.status ht hd, ?_⟩
    rcases Worker.declined_or_isTerminal (Turn.leads hd) with ⟨-, hst⟩ | ⟨-, hst⟩
    · exact .inl hst
    · exact .inr hst
  · exact ⟨_, hst, .inl rfl⟩
  · exact ⟨_, hst, .inr rfl⟩

theorem Watched.completed_of_diary (h : Watched env order I post p turns b q) (ht : t ∈ turns)
    (hd : d ∈ t.diaries env order)
    (hm : Worker.Unchanged d.past ∨ Worker.Landed (setting order t.wave.wave.index) d.item d.past) :
    q.state.status? d.item.id = some .completed := by
  rw [h.status ht hd, Worker.completed_of_leads (Turn.leads hd) hm]

theorem Watched.interrupted_of_diary (h : Watched env order I post p turns b q) (ht : t ∈ turns)
    (hd : d ∈ t.diaries env order) : q.state.status? d.item.id = some .interrupted ↔
      Worker.Began d.past ∧ (Worker.CutOff d.past ∨ Worker.Refused d.past) := by
  rw [h.status ht hd, Option.some.injEq]
  exact Worker.interrupted_iff_of_leads (Turn.leads hd)

theorem Watched.declined (h : Watched env order I post p turns b q) (ht : t ∈ turns) (hd : d ∈ t.diaries env order)
    (hdecl : Worker.Declined d.past) : q.state.status? d.item.id = some .pending ∧
      ∀ t' ∈ turns, ∀ d' ∈ t'.diaries env order, ∀ a, ⟨.errand (.create d.item.id), a⟩ ∉ d'.past := by
  have hst : q.state.status? d.item.id = some .pending := by
    rw [h.status ht hd]
    rcases Worker.declined_or_isTerminal (Turn.leads hd) with ⟨-, hst⟩ | ⟨hb, -⟩
    · rw [hst]
    · have := hdecl.symm.trans hb
      cases this
  refine ⟨hst, fun t' ht' d' hd' a hmem => ?_⟩
  -- A worker asks for the workspace of its own item only, and it does so only when it has begun.
  have hasks : Worker.Asks [d'.item.id] (Worker.work (setting order t'.wave.wave.index) d'.item) :=
    Worker.work_asks _ (List.mem_singleton_self _)
  obtain ⟨before, after, hpast⟩ := List.append_of_mem hmem
  have hleads := Turn.leads hd'
  rw [hpast] at hleads
  have hid : d.item.id ∈ [d'.item.id] := hasks.allowed hleads
  rw [List.mem_singleton.mp hid, h.status ht' hd'] at hst
  rcases Worker.declined_or_isTerminal hleads with ⟨hnone, -⟩ | ⟨-, hterm⟩
  · rw [hpast, hnone] at hmem
    exact nomatch hmem
  · rw [Option.some.inj hst] at hterm
    cases hterm

end

/-! ### The whole run -/

theorem of_whole_eq_ok {m : Summary} (h : whole env order p = .ok (m, r)) :
    ∃ q₀ b q₁, prepare env order p = .ok q₀ ∧
      waves env order (order.plan.waves.drop q₀.state.waveIndex) q₀ = .ok (b, q₁) ∧
      conclude env order (env.elapsed p.world) b q₁ = .ok (m, r) := by
  unfold whole at h
  cases hprep : prepare env order p with
  | error g =>
    rw [hprep] at h
    cases h
  | ok q₀ =>
    simp only [hprep, bind, Except.bind] at h
    cases hwaves : waves env order (order.plan.waves.drop q₀.state.waveIndex) q₀ with
    | error g =>
      rw [hwaves] at h
      cases h
    | ok x =>
      rw [hwaves] at h
      exact ⟨q₀, x.1, x.2, rfl, hwaves, h⟩

theorem interrupted_of_conclude {ms : Nat} {b : Bool} {m : Summary} (h : conclude env order ms b p = .ok (m, q)) :
    m.interrupted = b := by
  unfold conclude save at h
  split at h
  · cases h
    rfl
  · cases h

end Execution

/-- What is left of a run that an interrupt may end, where `turns` are the waves that it began from `p` on. -/
structure RunOrder.LosesNothing {σ : Type} (order : RunOrder) (env : Surroundings σ) (store : StateStore)
    (files : σ → FileTree) (p : Progress σ) (turns : List (Execution.Turn σ)) (r : RunResult σ) (m : Summary) :
    Prop where
  /-- The run counts as interrupted unless it comes to the end of the last wave and finds no interrupt there. -/
  interrupted : m.interrupted = true ↔ order.plan.waves ≠ [] ∧ ∀ t ∈ turns,
    t.wave.wave.index + 1 = order.plan.waves.length → env.interrupted (t.closing env order) = true
  succession : Execution.Succession env order p turns
  noLater : turns.Pairwise fun t _ => env.interrupted (t.closing env order) = false
  waves : turns.map (·.wave) <+: order.plan.waves
  settled : ∀ id ∈ order.plan.ids, ∃ st, r.state.status? id = some st ∧ (st = .pending ∨ st.isTerminal = true)
  file : (files r.world).read store.path = .ok r.state.fileText
  loaded : r.state.Writable → store.load (files r.world) = .ok (some r.state)
  diaries : ∀ t ∈ turns, (t.diaries env order).map (·.outcome) = t.returned ∧
    ((t.diaries env order).map (·.item)).Perm t.items ∧ ∀ d ∈ t.diaries env order,
      Leads (Worker.work (Execution.setting order t.wave.wave.index) d.item) d.past (.done d.outcome)
  completed : ∀ t ∈ turns, ∀ d ∈ t.diaries env order,
    Worker.Unchanged d.past ∨ Worker.Landed (Execution.setting order t.wave.wave.index) d.item d.past →
      r.state.status? d.item.id = some .completed
  cutShort : ∀ id ∈ order.plan.ids, r.state.status? id = some .interrupted ↔
    ∃ t ∈ turns, ∃ d ∈ t.diaries env order, d.item.id = id ∧ Worker.Began d.past ∧
      (Worker.CutOff d.past ∨ Worker.Refused d.past)
  declined : ∀ t ∈ turns, ∀ d ∈ t.diaries env order, Worker.Declined d.past →
    r.state.status? d.item.id = some .pending ∧
      ∀ t' ∈ turns, ∀ d' ∈ t'.diaries env order, ∀ a, ⟨.errand (.create d.item.id), a⟩ ∉ d'.past

theorem Execution.Watched.losesNothing {σ : Type} {env : Surroundings σ} {order : RunOrder} {I : σ → Prop}
    {store : StateStore} {files : σ → FileTree} {p q : Progress σ} {turns : List (Turn σ)} {r : RunResult σ}
    {m : Summary} (h : Watched env order I order.plan.waves p turns m.interrupted q) (henv : env.Steady I)
    (hskipped : ∀ id ∈ order.plan.blockedIds, q.state.status? id = some .skipped) (hr : r.state = q.state)
    (htext : (files r.world).read store.path = .ok r.state.fileText) :
    order.LosesNothing env store files p turns r m := by
  refine ⟨h.stopped, h.succession, h.succession.noLater, h.waves, fun id hid => ?_, htext,
    fun hw => StateStore.load_of_read hw htext,
    fun t ht => ⟨h.outcomes ht, h.diary_items henv ht, fun d hd => Turn.leads hd⟩,
    fun t ht d hd hm => ?_, fun id hid => ?_, fun t ht d hd hdecl => ?_⟩
  · rw [hr]
    rcases List.mem_append.mp hid with hid | hid
    · exact h.settled henv hid
    · exact ⟨_, hskipped id hid, .inr rfl⟩
  · rw [hr]
    exact h.completed_of_diary ht hd hm
  · rw [hr]
    constructor
    · intro hint
      rcases List.mem_append.mp hid with hid | hid
      · rcases h.diary_or_untaken henv hid with ⟨t, ht, d, hd, rfl⟩ | hst | hst
        · exact ⟨t, ht, d, hd, rfl, (h.interrupted_of_diary ht hd).mp hint⟩
        · rw [hst] at hint
          cases hint
        · rw [hst] at hint
          cases hint
      · rw [hskipped id hid] at hint
        cases hint
    · rintro ⟨t, ht, d, hd, rfl, hcut⟩
      exact (h.interrupted_of_diary ht hd).mpr hcut
  · rw [hr]
    exact h.declined ht hd hdecl

/-- Whenever an interrupt comes for good and whatever the workers return, a run of a plan whose saves succeed gives a
summary, is interrupted if the interrupt is there before the last wave is over, and loses nothing. The state that it
returns is the one that it saved last. -/
theorem RunOrder.losesNothing_of_build {items : List Item} {completed : StringSet} {policy : OrphanPolicy} {g : Graph}
    {order : RunOrder} {state : RunState} {σ : Type} {env : Surroundings σ} {I : σ → Prop} {store : StateStore}
    {files : σ → FileTree} (hg : Graph.build items completed policy = .ok g)
    (hp : Plan.build g completed = .ok order.plan) (hstate : state.Fresh completed) (henv : env.Steady I)
    (hstore : store.Guarded files I env) (world : σ) (hworld : I world)
    (hsaves : ∀ n ∈ (order.chronicled env state world).1, n.fault? = none) :
    ∃ (p : Progress σ) (turns : List (Execution.Turn σ)) (r : RunResult σ) (m : Summary),
      order.run env state world = r ∧ r.summary = .ok m ∧ order.watched env state world = (turns, r) ∧
      (∃ before, order.chronicled env state world = (before ++ [.saved r.state], r)) ∧
      Execution.prepare env order { world := world, state := state } = .ok p ∧
      order.LosesNothing env store files p turns r m := by
  have hplan := Plan.sound_of_build (Graph.built_of_build hg) hp
  obtain ⟨hrec, -, hlast⟩ := Execution.chronicleWhole_recorded (p := { world := world, state := state }) henv hstore
    hplan hstate hworld
  obtain ⟨p, hprep, hpw, hindex, hblocked, -, hbetween⟩ := Execution.prepare_between (E := Execution.Ended)
    (p := { world := world, state := state }) henv hworld hplan hstate
  have hsnd := Execution.chronicleWhole_snd env order { world := world, state := state }
  have hchron : order.chronicled env state world =
      ((Execution.chronicleWhole env order { world := world, state := state }).1,
        .of (Execution.chronicleWhole env order { world := world, state := state }).2) := rfl
  rw [hchron] at hsaves
  generalize Execution.chronicleWhole env order { world := world, state := state } = c at hrec hlast hsnd hsaves hchron
  obtain ⟨notes, g | ⟨m, r⟩⟩ := c
  · -- A run is given up only with a save that fails.
    obtain ⟨-, l, s, e, rfl, -, -⟩ := hrec
    cases hsaves (.refused s e) (by simp)
  obtain ⟨-, hread, -⟩ := hrec
  obtain ⟨before, rfl⟩ := hlast m r rfl
  have hrun : order.run env state world = ⟨r.world, r.state, .ok m⟩ := by
    unfold RunOrder.run
    rw [← hsnd]
    rfl
  obtain ⟨p', b, q, hprep', hwaves, hconclude⟩ := Execution.of_whole_eq_ok hsnd.symm
  obtain rfl : p = p' := Except.ok.inj (hprep.symm.trans hprep')
  obtain rfl : m.interrupted = b := Execution.interrupted_of_conclude hconclude
  rw [hindex, List.drop_zero, ← Execution.watch_snd] at hwaves
  have hw := Execution.watched_of_watch henv hplan (List.nil_append _).symm hbetween hpw.kept hwaves
  have hturns : (order.watched env state world).1 = (Execution.watch env order order.plan.waves p).1 := by
    show (Execution.watchWhole env order { world := world, state := state }).1 = _
    unfold Execution.watchWhole
    simp only [hprep, hindex, List.drop_zero]
  have htext : (files r.world).read store.path = .ok r.state.fileText := by
    rw [Execution.Note.held_append] at hread
    exact hread
  -- The items that can never run are skipped before the first wave, and no wave has them.
  have hskipped : ∀ id ∈ order.plan.blockedIds, q.state.status? id = some .skipped := fun id hid => by
    obtain ⟨i, hi, rfl⟩ := List.mem_map.mp hid
    exact congrArg Prod.fst ((hw.others i.itemId (hplan.blocked_nodup.2 _ hid)).trans (hblocked i hi))
  refine ⟨p, _, order.run env state world, m, rfl, by rw [hrun], Prod.ext hturns (order.watched_snd env state world),
    ⟨before, by rw [hrun]; exact hchron⟩, hprep, ?_⟩
  rw [hrun]
  exact hw.losesNothing henv hskipped (Execution.of_conclude_eq_ok hconclude).1 htext

/-- Surroundings in which an interrupt comes at time 10. The fixer takes longer for some items than for others and
changes nothing for `d`, and every save succeeds. The world is the time, and what is kept. -/
def Surroundings.cutShort : Surroundings (Nat × Option RunState) where
  errand e w := (match e with
    | .create id => ⟨.ok ⟨id, id, id⟩, 0⟩
    | .commit v _ => ⟨.ok (v.itemId != "d"), 2⟩
    | .remove _ => ⟨.ok (), 0⟩
    | .repository _ .head => ⟨.ok "head", 4⟩
    | .repository _ .dirtyFiles => ⟨.ok [], 4⟩
    | .repository _ .existing => ⟨fun _ => false, 0⟩
    | .repository _ (.merge _ _) => ⟨.ok .merged, 0⟩
    | .repository _ .abort | .repository _ .stashPop | .repository _ (.stashPush _ _) | .repository _ (.resetHard _)
    | .repository _ (.resetMerge _) => ⟨.ok (), 0⟩, w)
  fix r w := (⟨.ok ⟨0, "", ""⟩, if r.itemId = "a" then 3 else if r.itemId = "b" then 5 else if r.itemId = "c" then 30
    else 9⟩, w)
  tell _ w := w
  write _ w := w
  save s w := (.ok (), (w.1, some s))
  interrupted w := 10 ≤ w.1
  elapsed w := w.1
  pass t w := (if w.1 < 10 ∧ 10 ≤ t then 10 else max t w.1, w.2)
  now _ := default

theorem Surroundings.cutShort_steady : cutShort.Steady fun _ => True where
  errand _ _ hw := .refl hw
  fix _ _ hw := .refl hw
  tell _ _ hw := .refl hw
  write _ _ hw := .refl hw
  save _ _ _ := ⟨trivial, id⟩
  pass t w _ := by
    refine ⟨trivial, fun h => ?_⟩
    have h : 10 ≤ w.1 := of_decide_eq_true h
    refine decide_eq_true ?_
    show 10 ≤ if w.1 < 10 ∧ 10 ≤ t then 10 else max t w.1
    rw [if_neg (by omega)]
    omega

theorem StateStore.alone_guarded_cutShort : (StateStore.mk "state.json").Guarded alone (fun _ => True) .cutShort where
  anchored w _ p hp := by
    rw [List.prefix_nil.mp hp]
    rfl
  saved s w _ _ := by
    obtain ⟨n, kept⟩ := w
    cases kept with
    | none => exact save_of_steps rfl rfl rfl rfl
    | some state => exact save_of_steps rfl rfl rfl rfl
  refused s w e _ h := by cases h
  errand _ _ _ := rfl
  fix _ _ _ := rfl
  tell _ _ _ := rfl
  write _ _ _ := rfl
  pass _ _ _ := rfl

/-- Five items that can be worked on at once, and one that waits for the first of them. -/
def Plan.crowd : List Item :=
  [{ id := "a" }, { id := "b" }, { id := "c" }, { id := "d" }, { id := "e" }, { id := "f", blockedBy := .ofList ["a"] }]

/-- With four workers, `a` holds the lock when the interrupt comes, `b` waits for it, the fixer of `c` runs, the changes
of `d` are being committed and `e` is not begun. The wave of `f` is not begun any more. -/
theorem RunOrder.losesNothing_of_crowd : ∃ (order : RunOrder) (p : Progress (Nat × Option RunState))
    (turns : List (Execution.Turn (Nat × Option RunState))) (r : RunResult (Nat × Option RunState)) (m : Summary),
      order.plan.ids.map r.state.status? = [some .completed, some .interrupted, some .interrupted, some .completed,
        some .pending, some .pending] ∧ m.interrupted = true ∧
      order.run .cutShort (.new default) (0, none) = r ∧ r.summary = .ok m ∧
      order.watched .cutShort (.new default) (0, none) = (turns, r) ∧
      (∃ before, order.chronicled .cutShort (.new default) (0, none) = (before ++ [.saved r.state], r)) ∧
      Execution.prepare .cutShort order { world := (0, none), state := .new default } = .ok p ∧
      order.LosesNothing .cutShort ⟨"state.json"⟩ StateStore.alone p turns r m := by
  have h : ((Graph.build Plan.crowd ∅ .block).bind fun g => (Plan.build g ∅).map fun p =>
      let c := (⟨"run", p, ⟨4, 1000, false⟩, {}⟩ : RunOrder).chronicled .cutShort (.new default) (0, none)
      (c.1.map fun n => n.fault?.isNone, p.ids.map c.2.state.status?, c.2.summary.toOption.map (·.interrupted))) =
      .ok ([true, true, true], [some .completed, some .interrupted, some .interrupted, some .completed, some .pending,
        some .pending], some true) := by cbv
  obtain ⟨g, plan, hg, hp, hv⟩ := Plan.exists_of_bind_eq_ok h
  have hp : Plan.build g ∅ = .ok (⟨"run", plan, ⟨4, 1000, false⟩, {}⟩ : RunOrder).plan := hp
  obtain ⟨hnotes, hv⟩ := Prod.mk.inj hv
  obtain ⟨hstatuses, hinterrupted⟩ := Prod.mk.inj hv
  have hsaves : ∀ n ∈ ((⟨"run", plan, ⟨4, 1000, false⟩, {}⟩ : RunOrder).chronicled .cutShort (.new default)
      (0, none)).1, n.fault? = none := fun n hn => by
    have hmem : n.fault?.isNone ∈ [true, true, true] := hnotes ▸ List.mem_map_of_mem hn
    simpa using hmem
  obtain ⟨p, turns, r, m, hrun, hsummary, hall⟩ := losesNothing_of_build hg hp RunState.fresh_new
    Surroundings.cutShort_steady StateStore.alone_guarded_cutShort (0, none) trivial hsaves
  rw [RunOrder.chronicled_snd, hrun] at hstatuses hinterrupted
  rw [hsummary] at hinterrupted
  exact ⟨_, p, turns, r, m, hstatuses, Option.some.inj hinterrupted, hrun, hsummary, hall⟩

end WorkWaves
