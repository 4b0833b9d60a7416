import WorkWaves.Proofs.Run.Chapters

/-!
# One story

All that is told of a run, the outcomes in its summary and the state that it leaves say the same of every item
(`RunOrder.OneStory`), whatever the workers return and whenever an interrupt comes (`oneStory_of_build`): the blocked
items come first, then the chapters of the waves, and the summary counts where the items stand in the end.
-/

namespace WorkWaves

namespace Execution

variable {σ : Type} {env : Surroundings σ} {order : RunOrder} {told : σ → List Event} {p q : Progress σ} {b : Bool}

theorem conclude_adds (hhears : env.Hears told) {ms : Nat} {m : Summary}
    (h : conclude env order ms b p = .ok (m, q)) :
    Adds told p [.runEnd m] [] q ∧ q.state = p.state ∧ ∃ w, m = summary env order ms b { p with world := w } := by
  unfold conclude at h
  cases hs : save env p with
  | error g => simp [hs, bind, Except.bind] at h
  | ok r =>
    simp only [hs, bind, Except.bind] at h
    cases h
    have hr := of_save_eq_ok hs
    refine ⟨((save_adds hhears hs).trans (Adds.write hhears _ _ _ r)).trans (Adds.tell hhears _ _), ?_, r.world, ?_⟩
    · rw [hr]
      rfl
    · rw [hr]

end Execution

/-- All that is told of a run, chapter after chapter. -/
def RunOrder.account (order : RunOrder) (s : RunState) (m : Summary) (chapters : List Chapter) : List Event :=
  .runStart m.attempt m.totalItems m.wavesTotal :: .plan order.plan ::
    ((order.plan.blocked.map BlockedItem.outcome).map .itemEnd ++
      chapters.flatMap (Chapter.events order.plan s) ++ [.runEnd m])

/-- What a run tells, the summary `m` that it gives and the state `s` that it leaves say the same of every item. The
chapters are about the waves that it began. -/
structure RunOrder.OneStory (order : RunOrder) (s : RunState) (m : Summary) (events : List Event)
    (chapters : List Chapter) : Prop where
  told : events = order.account s m chapters
  waves : chapters.map (·.wave) <+: order.plan.waves
  index : chapters.map (·.wave.wave.index) = List.range chapters.length
  /-- At most the last wave is not closed. -/
  closed : ∀ c ∈ chapters.dropLast, c.closed = true
  fits : ∀ c ∈ chapters, c.Fits s
  outcomes : m.outcomes = order.plan.blocked.map BlockedItem.outcome ++ chapters.flatMap Chapter.outcomes
  ends : (events.filterMap Event.ended?).Perm (m.outcomes.filter (·.started))
  endsOnce : ((events.filterMap Event.ended?).map (·.itemId)).Nodup
  once : (m.outcomes.map (·.itemId)).Nodup
  planned : ∀ o ∈ m.outcomes, o.itemId ∈ order.plan.ids
  whole : m.interrupted = false → chapters.map (·.wave) = order.plan.waves ∧ (∀ c ∈ chapters, c.closed = true) ∧
    ((events.filterMap Event.ended?).map (·.itemId)).Perm order.plan.ids ∧
    (m.outcomes.map (·.itemId)).Perm order.plan.ids
  status : ∀ o ∈ m.outcomes, s.status? o.itemId = some o.status
  distinct : order.plan.ids.Nodup
  counts : ∀ st, m.counts.count st = order.plan.ids.countP fun id => s.status? id == some st
  total : m.counts.total = m.totalItems ∧ m.totalItems = order.plan.ids.length
  exitCode : m.exitCode = if m.interrupted then .interrupted
    else if ∀ id ∈ order.plan.ids, s.status? id = some .completed then .success else .itemsFailed

section

variable {σ : Type} {env : Surroundings σ} {I : σ → Prop} {order : RunOrder} {told : σ → List Event}
  {p q : Progress σ} {items : List Item} {completed : StringSet} {policy : OrphanPolicy} {chapters : List Chapter}
  {m : Summary}

open Execution

/-- The exit code of a run whose counts are those of its plan. -/
theorem Summary.exitCode_eq {s : RunState} {ids : List String} (hm : m.counts = countsOf s ids)
    (hs : ∀ id ∈ ids, s.status? id ≠ none) : m.exitCode = if m.interrupted then .interrupted
      else if ∀ id ∈ ids, s.status? id = some .completed then .success else .itemsFailed := by
  have hcompleted : m.counts.completed = ids.countP fun id => s.status? id == some .completed := by
    rw [hm]
    exact count_countsOf s ids .completed
  have hall : (m.counts.completed == m.counts.total) = decide (∀ id ∈ ids, s.status? id = some .completed) := by
    rw [hcompleted, hm, total_countsOf hs, Bool.eq_iff_iff, beq_iff_eq, List.countP_eq_length, decide_eq_true_iff]
    exact forall₂_congr fun id _ => beq_iff_eq
  unfold exitCode isSuccess
  cases m.interrupted <;> simp [hall]

/-- The waves that were begun are the first ones. -/
theorem Execution.Recited.index {plan : Plan} {b : Bool} (h : Recited told plan plan.waves p chapters b q)
    (hindex : plan.waves.map (·.wave.index) = List.range plan.waves.length) :
    chapters.map (·.wave.wave.index) = List.range chapters.length := by
  have hprefix := h.waves.map (·.wave.index)
  rw [hindex, List.map_map, List.prefix_iff_eq_take, List.take_range, List.length_map] at hprefix
  rw [show chapters.map (·.wave.wave.index) = _ from hprefix, Nat.min_eq_left]
  simpa using h.waves.length_le

/-- Apart from the chapters it is told of blocked items only how they ended. -/
theorem Execution.Recited.account_ends {ws : List RefinedWave} {b : Bool}
    (h : Recited told order.plan ws p chapters b q) (m : Summary) :
    ((order.account q.state m chapters).filterMap Event.ended?).Perm
      (order.plan.blocked.map BlockedItem.outcome ++ (chapters.flatMap Chapter.outcomes).filter (·.started)) := by
  have hlast : [Event.runEnd m].filterMap Event.ended? = [] := rfl
  rw [RunOrder.account, List.filterMap_cons_none rfl, List.filterMap_cons_none rfl, List.filterMap_append,
    List.filterMap_append, Chapter.filterMap_ended?_itemEnd, hlast, List.append_nil]
  exact h.ends.append_left _

/-- The records of a run agree when its chapters follow on the blocked items. -/
theorem Execution.Recited.oneStory {w : σ} {ms : Nat} {b : Bool}
    (h : Recited told order.plan order.plan.waves p chapters b q)
    (hm : m = summary env order ms b { q with world := w }) (hplan : order.plan.Sound items completed policy)
    (hblocked : ∀ id ∈ order.plan.blockedIds, q.state.status? id = some .skipped)
    (hsettled : ∀ id ∈ order.plan.ids, q.state.status? id ≠ none)
    (hp : p.outcomes = order.plan.blocked.map BlockedItem.outcome) :
    order.OneStory q.state m (order.account q.state m chapters) chapters := by
  subst hm
  have hout : q.outcomes = order.plan.blocked.map BlockedItem.outcome ++ chapters.flatMap Chapter.outcomes :=
    h.adds.outcomes.trans (by rw [hp])
  have hstarted : ∀ o ∈ order.plan.blocked.map BlockedItem.outcome, o.started = true := fun o ho => by
    obtain ⟨c, -, rfl⟩ := List.mem_map.mp ho
    rfl
  obtain ⟨later, hids, hlater⟩ := h.itemIds
  have hperm : order.plan.ids.Perm (q.outcomes.map (·.itemId) ++ later) := by
    rw [hout, List.map_append, List.map_map, List.append_assoc]
    exact List.perm_append_comm.trans (hids.append_left _)
  have honce : (q.outcomes.map (·.itemId)).Nodup := (List.nodup_append.mp (hperm.nodup_iff.mp hplan.ids_nodup)).1
  have hends : ((order.account q.state (summary env order ms b { q with world := w }) chapters).filterMap
      Event.ended?).Perm (q.outcomes.filter (·.started)) := by
    rw [hout, List.filter_append, List.filter_eq_self.mpr hstarted]
    exact h.account_ends _
  refine ⟨rfl, h.waves, h.index hplan.index, h.closed, h.fits, hout, hends, ?_, honce, fun o ho => ?_, ?_, fun o ho => ?_,
    hplan.ids_nodup, count_countsOf _ _, ⟨?_, order.plan.total_eq⟩, Summary.exitCode_eq rfl hsettled⟩
  · exact (hends.map _).nodup_iff.mpr (honce.sublist (List.filter_sublist.map _))
  · exact hperm.mem_iff.mpr (List.mem_append_left _ (List.mem_map_of_mem ho))
  · rintro (hb : b = false)
    subst hb
    rw [hlater rfl, List.append_nil] at hperm
    have hall : q.outcomes.filter (·.started) = q.outcomes := by
      rw [hout]
      exact List.filter_eq_self.mpr (List.forall_mem_append.mpr ⟨hstarted, h.started⟩)
    refine ⟨(h.all rfl).1, (h.all rfl).2, (hends.map _).trans ?_, hperm.symm⟩
    rw [hall]
    exact hperm.symm
  · have ho : o ∈ q.outcomes := ho
    rw [hout] at ho
    rcases List.mem_append.mp ho with ho | ho
    · obtain ⟨c, hc, rfl⟩ := List.mem_map.mp ho
      exact hblocked c.itemId (List.mem_map_of_mem hc)
    · obtain ⟨c, hc, ho⟩ := List.mem_flatMap.mp ho
      exact (h.fits c hc).status o ho
  · exact (total_countsOf hsettled).trans order.plan.total_eq.symm

/-- Whatever the workers return and in which order they come back, and whenever an interrupt comes for good, what is
told in a run that gives a summary, the summary and the state that is left say the same of every item. -/
theorem RunOrder.oneStory_of_build {g : Graph} {state : RunState} (hg : Graph.build items completed policy = .ok g)
    (hp : Plan.build g completed = .ok order.plan) (hstate : state.Fresh completed) (henv : env.Steady I)
    (hhears : env.Hears told) (world : σ) (hworld : I world)
    (hm : (order.run env state world).summary = .ok m) :
    ∃ events chapters, told (order.run env state world).world = told world ++ events ∧
      order.OneStory (order.run env state world).state m events chapters := by
  have hplan := Plan.sound_of_build (Graph.built_of_build hg) hp
  have hattempt := order.run_kept (RunState.attempt_kept state.attempt) env world rfl
  obtain ⟨p, hprep, hpw, hindex, hblocked, -, hbetween⟩ := prepare_between (E := Ended)
    (p := { world := world, state := state }) henv hworld hplan hstate
  have hprepared := prepare_adds hhears hplan hstate hprep
  unfold RunOrder.run at hm hattempt ⊢
  cases hwhole : whole env order { world := world, state := state } with
  | error g =>
    rw [hwhole] at hm
    cases hm
  | ok x =>
    obtain ⟨m', r⟩ := x
    rw [hwhole] at hm hattempt
    cases hm
    obtain ⟨p', b, q, hprep', hwaves, hconclude⟩ := of_whole_eq_ok hwhole
    obtain rfl : p = p' := Except.ok.inj (hprep.symm.trans hprep')
    rw [hindex, List.drop_zero, ← watch_snd] at hwaves
    have hwatched := watched_of_watch henv hplan (List.nil_append _).symm hbetween hpw.kept hwaves
    obtain ⟨chapters, hrecited⟩ := exists_recited_of_watch henv hhears hplan (List.nil_append _).symm hbetween
      hpw.kept hwaves
    obtain ⟨hconcluded, hlast, w, hsummary⟩ := conclude_adds hhears hconclude
    -- The items that can never run are skipped before the first wave, and no wave has them.
    have hskipped : ∀ id ∈ order.plan.blockedIds, q.state.status? id = some .skipped := fun id hid => by
      obtain ⟨i, hi, rfl⟩ := List.mem_map.mp hid
      exact congrArg Prod.fst ((hwatched.others i.itemId (hplan.blocked_nodup.2 _ hid)).trans (hblocked i hi))
    have hsettled : ∀ id ∈ order.plan.ids, q.state.status? id ≠ none := fun id hid => by
      rcases List.mem_append.mp hid with hid | hid
      · obtain ⟨st, hst, -⟩ := hwatched.settled henv hid
        simp [hst]
      · simp [hskipped id hid]
    have hstory := hrecited.oneStory hsummary hplan hskipped hsettled (hprepared.outcomes.trans (List.nil_append _))
    refine ⟨_, chapters, ?_, hlast ▸ hstory⟩
    have hall := ((hprepared.trans hrecited.adds).trans hconcluded).events
    have hattempt : m.attempt = state.attempt := by
      rw [hsummary]
      exact (congrArg RunState.attempt hlast.symm).trans hattempt
    have htotal : m.totalItems = order.plan.total ∧ m.wavesTotal = order.plan.waves.length := by
      rw [hsummary]
      exact ⟨rfl, rfl⟩
    show told r.world = _
    rw [hall, RunOrder.account, hlast, hattempt, htotal.1, htotal.2]
    rfl

end

/-- Surroundings in which all that is told is kept. -/
def Surroundings.listening {σ : Type} (env : Surroundings σ) : Surroundings (σ × List Event) where
  errand e w := ((env.errand e w.1).1, (env.errand e w.1).2, w.2)
  fix r w := ((env.fix r w.1).1, (env.fix r w.1).2, w.2)
  tell e w := (env.tell e w.1, w.2 ++ [e])
  write r w := (env.write r w.1, w.2)
  save s w := ((env.save s w.1).1, (env.save s w.1).2, w.2)
  interrupted w := env.interrupted w.1
  elapsed w := env.elapsed w.1
  pass t w := (env.pass t w.1, w.2)
  now w := env.now w.1

theorem Surroundings.listening_hears {σ : Type} (env : Surroundings σ) : env.listening.Hears Prod.snd where
  tell _ _ := rfl
  errand _ _ := rfl
  fix _ _ := rfl
  write _ _ := rfl
  save _ _ := rfl
  pass _ _ := rfl

theorem Surroundings.Steady.listening {σ : Type} {env : Surroundings σ} {I : σ → Prop} (h : env.Steady I) :
    env.listening.Steady fun w => I w.1 where
  errand e w hw := ⟨(h.errand e w.1 hw).kept, (h.errand e w.1 hw).stays⟩
  fix r w hw := ⟨(h.fix r w.1 hw).kept, (h.fix r w.1 hw).stays⟩
  tell e w hw := ⟨(h.tell e w.1 hw).kept, (h.tell e w.1 hw).stays⟩
  write r w hw := ⟨(h.write r w.1 hw).kept, (h.write r w.1 hw).stays⟩
  save s w hw := ⟨(h.save s w.1 hw).kept, (h.save s w.1 hw).stays⟩
  pass t w hw := ⟨(h.pass t w.1 hw).kept, (h.pass t w.1 hw).stays⟩

/-- Two pairs of items; in each of them, one waits for the other. -/
def Plan.twoPairs : List Item :=
  [{ id := "a" }, { id := "b" }, { id := "c", blockedBy := .ofList ["b"] },
    { id := "d", blockedBy := .ofList ["a"] }]

/-- There is no workspace for `b`, so `c` is passed over. An interrupt comes while `d` is worked on, so its wave is not
closed. -/
theorem RunOrder.oneStory_of_twoPairs : ∃ (order : RunOrder) (r : RunResult (Nat × List Event)) (m : Summary)
    (events : List Event) (chapters : List Chapter),
      order.run (Surroundings.fullDisk (20 ≤ ·)).listening (.new default) (0, []) = r ∧ r.summary = .ok m ∧
      m.interrupted = true ∧ r.world.2 = events ∧
      events.map (fun e => (e.name, e.ended?.map (·.itemId))) = [("run.start", none), ("plan", none),
        ("wave.start", none), ("item.start", none), ("item.start", none), ("item.end", some "b"),
        ("item.end", some "a"), ("wave.end", none), ("wave.start", none), ("item.end", some "c"),
        ("item.start", none), ("item.end", some "d"), ("run.end", none)] ∧
      order.plan.ids.map r.state.status? = [some .completed, some .failed, some .skipped, some .failed] ∧
      order.OneStory r.state m events chapters := by
  have h : ((Graph.build Plan.twoPairs ∅ .block).bind fun g => (Plan.build g ∅).map fun p =>
      let r := (⟨"run", p, ⟨2, 1000, false⟩, {}⟩ : RunOrder).run (Surroundings.fullDisk (20 ≤ ·)).listening
        (.new default) (0, [])
      (r.summary.toOption.map (·.interrupted), r.world.2.map fun e => (e.name, e.ended?.map (·.itemId)),
        p.ids.map r.state.status?)) =
      .ok (some true, [("run.start", none), ("plan", none),
        ("wave.start", none), ("item.start", none), ("item.start", none), ("item.end", some "b"),
        ("item.end", some "a"), ("wave.end", none), ("wave.start", none), ("item.end", some "c"),
        ("item.start", none), ("item.end", some "d"), ("run.end", none)],
        [some .completed, some .failed, some .skipped, some .failed]) := by cbv
  obtain ⟨g, plan, hg, hp, hv⟩ := Plan.exists_of_bind_eq_ok h
  have hp : Plan.build g ∅ = .ok (⟨"run", plan, ⟨2, 1000, false⟩, {}⟩ : RunOrder).plan := hp
  have hstop : ∀ t w : Nat, decide (20 ≤ w) = true → decide (20 ≤ max t w) = true := by
    intro t w h
    simp only [decide_eq_true_eq] at h ⊢
    omega
  obtain ⟨hsummary, hv⟩ := Prod.mk.inj hv
  obtain ⟨hnames, hstatuses⟩ := Prod.mk.inj hv
  cases hm : ((⟨"run", plan, ⟨2, 1000, false⟩, {}⟩ : RunOrder).run (Surroundings.fullDisk (20 ≤ ·)).listening
      (.new default) (0, [])).summary with
  | error e =>
    rw [hm] at hsummary
    cases hsummary
  | ok m =>
    rw [hm] at hsummary
    obtain ⟨events, chapters, htold, hstory⟩ := oneStory_of_build hg hp RunState.fresh_new
      (Surroundings.fullDisk_steady hstop).listening (Surroundings.listening_hears _) (0, []) trivial hm
    rw [htold] at hnames
    exact ⟨_, _, m, events, chapters, rfl, hm, Option.some.inj hsummary, htold, hnames, hstatuses, hstory⟩

end WorkWaves
