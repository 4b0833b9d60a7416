import WorkWaves.Proofs.Run.Safety

/-!
# What becomes of every item

Without an interrupt, what becomes of an item depends on nothing but the plan and on what the workers return:
`Plan.fate` finds it wave by wave. `Plan.Fates` says what it is: an item whose blockers all end well ends as its
worker says, and any other one is skipped because of its first blocker that did not. Every run comes to it
(`fates_of_build`), with any number of workers and in whatever order they end.
-/

namespace WorkWaves

/-- What becomes of the items of a plan when their workers return what `verdict` says. -/
structure Plan.Fates (items : List Item) (completed : StringSet) (policy : OrphanPolicy) (plan : Plan)
    (verdict : Item → Status × Option String) (fate : String → Status × Option String) : Prop where
  beforehand : ∀ id ∈ completed, (fate id).1 = .completed
  blocked : ∀ b ∈ plan.blocked, fate b.itemId = (.skipped, some b.reason.message)
  skipped : ∀ w ∈ plan.waves, ∀ i ∈ w.items, (fate i.id).1 = .skipped ↔
    ∃ b, Graph.Awaits items completed policy i b ∧ (fate b).1.isUnsuccessful = true
  because : ∀ w ∈ plan.waves, ∀ i ∈ w.items, (fate i.id).1 = .skipped → ∃ b,
    Graph.Awaits items completed policy i b ∧ (fate b).1.isUnsuccessful = true ∧
    (∀ c, Graph.Awaits items completed policy i c → (fate c).1.isUnsuccessful = true → b ≤ c) ∧
    (fate i.id).2 = some ("blocked by " ++ b ++ " (" ++ (fate b).1.text ++ ")")
  worked : ∀ w ∈ plan.waves, ∀ i ∈ w.items, (fate i.id).1 ≠ .skipped → fate i.id = verdict i
  terminal : ∀ id ∈ plan.ids, (fate id).1.isTerminal = true

namespace Plan

/-- The first of some ids to which something bad has become. -/
def firstUnmet (fate : String → Status × Option String) (ids : List String) : Option (String × Status) :=
  ids.findSome? fun b => if (fate b).1.isUnsuccessful then some (b, (fate b).1) else none

/-- What becomes of an item, given what becomes of its blockers. -/
def decree (plan : Plan) (verdict : Item → Status × Option String) (fate : String → Status × Option String)
    (i : Item) : Status × Option String :=
  match firstUnmet fate (plan.blockersOf i.id) with
  | some b => (.skipped, some (Execution.blockedBy b))
  | none => verdict i

/-- What becomes of items, those of one more wave included. -/
def fateWith (plan : Plan) (verdict : Item → Status × Option String) (fate : String → Status × Option String)
    (w : RefinedWave) (id : String) : Status × Option String :=
  match w.items.find? (·.id == id) with
  | some i => decree plan verdict fate i
  | none => fate id

/-- What becomes of items that stand in no wave. -/
def fateBefore (plan : Plan) (id : String) : Status × Option String :=
  match plan.blocked.find? (·.itemId == id) with
  | some b => (.skipped, some b.reason.message)
  | none => (.completed, none)

/-- What becomes of the items of a plan. -/
def fate (plan : Plan) (verdict : Item → Status × Option String) : String → Status × Option String :=
  plan.waves.foldl (plan.fateWith verdict) plan.fateBefore

variable {items : List Item} {completed : StringSet} {policy : OrphanPolicy} {plan : Plan}
  {verdict : Item → Status × Option String} {fate : String → Status × Option String} {pre post : List RefinedWave}

theorem firstUnmet_congr {fate' : String → Status × Option String} {ids : List String}
    (h : ∀ b ∈ ids, fate' b = fate b) : firstUnmet fate' ids = firstUnmet fate ids := by
  refine Execution.findSome?_congr fun b hb => ?_
  rw [h b hb]

theorem firstUnmet_eq_none {ids : List String} :
    firstUnmet fate ids = none ↔ ∀ b ∈ ids, (fate b).1.isUnsuccessful = false := by
  unfold firstUnmet
  rw [List.findSome?_eq_none_iff]
  refine forall₂_congr fun b _ => ?_
  cases hu : (fate b).1.isUnsuccessful <;> simp

/-- The first of increasing ids is the smallest one. -/
theorem firstUnmet_eq_some {ids : List String} (hi : ids.Pairwise (· < ·)) {b : String × Status}
    (h : firstUnmet fate ids = some b) : b.1 ∈ ids ∧ b.2 = (fate b.1).1 ∧ (fate b.1).1.isUnsuccessful = true ∧
      ∀ c ∈ ids, (fate c).1.isUnsuccessful = true → b.1 ≤ c := by
  unfold firstUnmet at h
  obtain ⟨l₁, a, l₂, rfl, ha, hl₁⟩ := List.findSome?_eq_some_iff.mp h
  split at ha
  · next hu =>
    cases ha
    refine ⟨by simp, rfl, hu, fun c hc hcu => ?_⟩
    rcases List.mem_append.mp hc with hc | hc
    · have := hl₁ c hc
      simp [hcu] at this
    · rcases List.mem_cons.mp hc with rfl | hc
      · exact String.le_refl _
      · have hlt := (List.pairwise_cons.mp (List.pairwise_append.mp hi).2.1).1 c hc
        exact String.not_lt.mp (String.lt_asymm hlt)
  · cases ha

/-- What has become of completed and blocked items and of those in some waves is as decreed. -/
structure Decreed (completed : StringSet) (plan : Plan) (verdict : Item → Status × Option String)
    (pre : List RefinedWave) (fate : String → Status × Option String) : Prop where
  beforehand : ∀ id ∈ completed, (fate id).1 = .completed
  blocked : ∀ b ∈ plan.blocked, fate b.itemId = (.skipped, some b.reason.message)
  waves : ∀ w ∈ pre, ∀ i ∈ w.items, fate i.id = decree plan verdict fate i

theorem fateWith_of_mem {w : RefinedWave} (hn : w.ids.Nodup) {i : Item} (hi : i ∈ w.items) :
    plan.fateWith verdict fate w i.id = decree plan verdict fate i := by
  have hfind : w.items.find? (·.id == i.id) = some i := Graph.find?_eq_some_of_nodup (fun j : Item => j.id) hn hi
  unfold fateWith
  rw [hfind]

theorem fateWith_of_not_mem {w : RefinedWave} {id : String} (hid : id ∉ w.ids) :
    plan.fateWith verdict fate w id = fate id := by
  have hfind : w.items.find? (·.id == id) = none := Graph.find?_eq_none_of_not_mem (fun j : Item => j.id) hid
  unfold fateWith
  rw [hfind]

theorem decreed_fateBefore (hplan : plan.Sound items completed policy) :
    Decreed completed plan verdict [] plan.fateBefore := by
  refine ⟨fun id hid => ?_, fun b hb => ?_, by simp⟩
  · have hfind : plan.blocked.find? (·.itemId == id) = none :=
      Graph.find?_eq_none_of_not_mem (fun c : BlockedItem => c.itemId) fun hmem =>
        hplan.fresh id (List.mem_append_right _ hmem) hid
    unfold fateBefore
    rw [hfind]
  · have hfind : plan.blocked.find? (·.itemId == b.itemId) = some b :=
      Graph.find?_eq_some_of_nodup (fun c : BlockedItem => c.itemId) hplan.blocked_nodup.1 hb
    unfold fateBefore
    rw [hfind]

theorem Decreed.snoc {w : RefinedWave} (h : Decreed completed plan verdict pre fate)
    (hplan : plan.Sound items completed policy) (hs : plan.waves = pre ++ w :: post) :
    Decreed completed plan verdict (pre ++ [w]) (plan.fateWith verdict fate w) := by
  obtain ⟨hnodup, hapart⟩ := hplan.wave_nodup hs
  -- No item of these waves has a blocker in the new one, so its decree stays.
  have hdecree : ∀ v ∈ pre ++ [w], ∀ i ∈ v.items,
      decree plan verdict (plan.fateWith verdict fate w) i = decree plan verdict fate i := by
    intro v hv i hi
    unfold decree
    rw [firstUnmet_congr fun b hb => fateWith_of_not_mem ?_]
    rcases List.mem_append.mp hv with hv | hv
    · obtain ⟨l₁, l₂, rfl⟩ := List.append_of_mem hv
      have hs' : plan.waves = l₁ ++ v :: (l₂ ++ w :: post) := by rw [hs, List.append_assoc, List.cons_append]
      intro hbw
      rcases hplan.blockersOf_earlier hs' hi hb with hb | hb
      · exact hplan.not_mem_completed hs hbw hb
      · refine (hapart b hbw).1 ?_
        rw [List.flatMap_append]
        exact List.mem_append_left _ hb
    · rw [List.mem_singleton.mp hv] at hi
      exact hplan.blockersOf_apart hs hi hb
  refine ⟨fun id hid => ?_, fun b hb => ?_, fun v hv i hi => ?_⟩
  · rw [fateWith_of_not_mem fun hmem => hplan.not_mem_completed hs hmem hid]
    exact h.beforehand id hid
  · rw [fateWith_of_not_mem fun hmem => ?_]
    · exact h.blocked b hb
    · refine hplan.blocked_nodup.2 b.itemId (List.mem_map_of_mem hb) ?_
      rw [waveIds, hs]
      simp [hmem]
  · rw [hdecree v hv i hi]
    rcases List.mem_append.mp hv with hv | hv
    · rw [fateWith_of_not_mem fun hmem => ?_]
      · exact h.waves v hv i hi
      · exact (hapart i.id hmem).1 (List.mem_flatMap.mpr ⟨v, hv, List.mem_map_of_mem hi⟩)
    · rw [List.mem_singleton.mp hv] at hi
      exact fateWith_of_mem hnodup hi

theorem Decreed.foldl (h : Decreed completed plan verdict pre fate) (hplan : plan.Sound items completed policy)
    (hs : plan.waves = pre ++ post) :
    Decreed completed plan verdict plan.waves (post.foldl (plan.fateWith verdict) fate) := by
  induction post generalizing pre fate with
  | nil => rwa [hs, List.append_nil]
  | cons w post ih => exact ih (h.snoc hplan hs) (by rw [hs, List.append_assoc]; rfl)

theorem decreed_fate (hplan : plan.Sound items completed policy) (verdict : Item → Status × Option String) :
    Decreed completed plan verdict plan.waves (plan.fate verdict) :=
  (decreed_fateBefore hplan).foldl hplan (List.nil_append _).symm

/-- An item of a wave ends as its worker says, or is skipped because of the first of its blockers that did not end
well. -/
theorem Decreed.item {w : RefinedWave} {i : Item} (h : Decreed completed plan verdict plan.waves fate)
    (hplan : plan.Sound items completed policy) (hw : w ∈ plan.waves) (hi : i ∈ w.items) :
    (fate i.id = verdict i ∧ ∀ b, Graph.Awaits items completed policy i b → (fate b).1.isUnsuccessful = false) ∨
    ∃ b, Graph.Awaits items completed policy i b ∧ (fate b).1.isUnsuccessful = true ∧
      (∀ c, Graph.Awaits items completed policy i c → (fate c).1.isUnsuccessful = true → b ≤ c) ∧
      fate i.id = (.skipped, some ("blocked by " ++ b ++ " (" ++ (fate b).1.text ++ ")")) := by
  have hmem := hplan.mem_items w hw i hi
  have hawaits := hplan.mem_blockersOf i hmem
  rw [h.waves w hw i hi]
  unfold decree
  cases hf : firstUnmet fate (plan.blockersOf i.id) with
  | none => exact .inl ⟨rfl, fun b hb => firstUnmet_eq_none.mp hf b ((hawaits b).mpr hb)⟩
  | some b =>
    obtain ⟨hb, hst, hu, hfirst⟩ := firstUnmet_eq_some (hplan.increasing i hmem) hf
    refine .inr ⟨b.1, (hawaits b.1).mp hb, hu, fun c hc => hfirst c ((hawaits c).mpr hc), ?_⟩
    rw [← hst]
    rfl

theorem Decreed.fates (h : Decreed completed plan verdict plan.waves fate) (hplan : plan.Sound items completed policy)
    (hv : ∀ i, (verdict i).1 = .completed ∨ (verdict i).1 = .failed ∨ (verdict i).1 = .timeout) :
    plan.Fates items completed policy verdict fate := by
  have hnot : ∀ i, (verdict i).1 ≠ .skipped := fun i hs => by
    have := hv i
    simp [hs] at this
  refine ⟨h.beforehand, h.blocked, fun w hw i hi => ?_, fun w hw i hi hs => ?_, fun w hw i hi hs => ?_,
    fun id hid => ?_⟩
  · rcases h.item hplan hw hi with ⟨he, hall⟩ | ⟨b, hb, hu, -, he⟩
    · rw [he]
      refine ⟨fun hs => absurd hs (hnot i), ?_⟩
      rintro ⟨b, hb, hu⟩
      exact absurd hu (Bool.eq_false_iff.mp (hall b hb))
    · rw [he]
      exact ⟨fun _ => ⟨b, hb, hu⟩, fun _ => rfl⟩
  · rcases h.item hplan hw hi with ⟨he, -⟩ | ⟨b, hb, hu, hfirst, he⟩
    · rw [he] at hs
      exact absurd hs (hnot i)
    · exact ⟨b, hb, hu, hfirst, congrArg Prod.snd he⟩
  · rcases h.item hplan hw hi with ⟨he, -⟩ | ⟨b, -, -, -, he⟩
    · exact he
    · exact absurd (congrArg Prod.fst he) hs
  · rw [ids_eq, List.mem_append] at hid
    rcases hid with hid | hid
    · obtain ⟨w, hw, hid⟩ := List.mem_flatMap.mp hid
      obtain ⟨i, hi, rfl⟩ := List.mem_map.mp hid
      rcases h.item hplan hw hi with ⟨he, -⟩ | ⟨b, -, -, -, he⟩
      · rw [he]
        rcases hv i with hs | hs | hs <;> rw [hs] <;> rfl
      · rw [he]
        rfl
    · obtain ⟨b, hb, rfl⟩ := List.mem_map.mp hid
      rw [h.blocked b hb]
      rfl

end Plan

namespace Execution

variable {σ : Type} {env : Surroundings σ} {I : σ → Prop} {order : RunOrder} {p q : Progress σ}
  {items : List Item} {completed : StringSet} {policy : OrphanPolicy} {pre post : List RefinedWave}
  {verdict : Item → Status × Option String} {fate : String → Status × Option String}
  {old : String → Option String}

/-- Nothing comes between a run and its end: no interrupt comes, every save succeeds, and each worker comes back
with what `verdict` says of its item. -/
structure Undisturbed (env : Surroundings σ) (I : σ → Prop) (order : RunOrder)
    (verdict : Item → Status × Option String) : Prop where
  steady : env.Steady I
  calm : ∀ w, I w → env.interrupted w = false
  saves : ∀ s w, I w → (env.save s w).1 = .ok ()
  returns : ∀ v ∈ order.plan.waves, ∀ i ∈ v.items, ∀ w, I w → ∀ o,
    Pool.Came env (setting order v.wave.index) I w i o → (o.status, o.reason) = verdict i

theorem unmetBlocker_eq_firstUnmet {plan : Plan} {s : RunState} {id : String}
    (h : ∀ b ∈ plan.blockersOf id, s.status? b = some (fate b).1 ∨
      (fate b).1.isUnsuccessful = false ∧ ∀ st, s.status? b = some st → st.isUnsuccessful = false) :
    unmetBlocker plan s id = Plan.firstUnmet fate (plan.blockersOf id) := by
  refine findSome?_congr fun b hb => ?_
  rcases h b hb with hb | ⟨hf, hb⟩
  · rw [hb]
  · rw [if_neg (Bool.eq_false_iff.mp hf)]
    cases hst : s.status? b with
    | none => rfl
    | some st => simp only [hb st hst, Bool.false_eq_true, ↓reduceIte]

/-- An item stands as has become of it. -/
def Stands (fate : String → Status × Option String) (id : String) (x : Option Status × Option String) : Prop :=
  x = (some (fate id).1, (fate id).2)

theorem Between.stands {t : Turn σ} (h : Between (Stands fate) old pre (t.wave :: post) p.state)
    (hd : Done env I order p t q) (hund : Undisturbed env I order verdict)
    (hplan : order.plan.Sound items completed policy)
    (hfate : Plan.Decreed completed order.plan verdict order.plan.waves fate)
    (hs : order.plan.waves = pre ++ t.wave :: post)
    (hdone : ∀ b ∈ completed, ∀ st, p.state.status? b = some st → st.isUnsuccessful = false)
    (hold : ∀ id ∈ t.wave.ids, old id = none) :
    ∀ i ∈ t.wave.items, Stands fate i.id (q.state.stand i.id) := by
  intro i hi
  have hw : t.wave ∈ order.plan.waves := hs ▸ by simp
  have hunmet : unmetBlocker order.plan p.state i.id = Plan.firstUnmet fate (order.plan.blockersOf i.id) :=
    unmetBlocker_eq_firstUnmet fun b hb => by
      rcases hplan.blockersOf_earlier hs hi hb with hb | hb
      · exact .inr ⟨by rw [hfate.beforehand b hb]; rfl, hdone b hb⟩
      · exact .inl (congrArg Prod.fst (h.ended b hb))
  have hdecree := hfate.waves t.wave hw i hi
  unfold Plan.decree at hdecree
  rw [← hunmet] at hdecree
  unfold Stands
  cases hu : unmetBlocker order.plan p.state i.id with
  | some b =>
    rw [hu] at hdecree
    rw [hd.skipped i hi b hu, hdecree]
  | none =>
    rw [hu] at hdecree
    obtain ⟨o, ho, hstand⟩ := hd.worked i (hd.mem_items.mpr ⟨hi, hu⟩)
    have hq := hd.after.world.kept
    have hstarted := (ho.started (Bool.eq_false_iff.mp (hund.calm _ hq))).1
    have hid : i.id ∈ t.wave.ids := List.mem_map_of_mem hi
    have hreason : p.state.reason? i.id = none :=
      (congrArg Prod.snd (h.pending i.id (by simp [hid]))).trans (hold i.id hid)
    rw [hstand, if_pos hstarted, hreason, Option.or_none, hdecree, ← hund.returns t.wave hw i hi _ hq o ho]

theorem close_eq_ok {w : RefinedWave} (hund : Undisturbed env I order verdict) (hp : I p.world) :
    ∃ q, close env w p = .ok q := by
  obtain ⟨hworld, hsave⟩ :=
    save_eq (p := { p with state := { p.state with waveIndex := w.wave.index + 1 } }) hund.steady hp
  unfold close
  simp only [hsave, hund.saves _ _ hp, bind, Except.bind]
  exact ⟨_, rfl⟩

/-- The waves are all run, and each item of them stands as has become of it. -/
theorem waves_stand (hund : Undisturbed env I order verdict) (hplan : order.plan.Sound items completed policy)
    (hfate : Plan.Decreed completed order.plan verdict order.plan.waves fate)
    (hs : order.plan.waves = pre ++ post) (h : Between (Stands fate) old pre post p.state) (hp : I p.world)
    (hdone : ∀ b ∈ completed, ∀ st, p.state.status? b = some st → st.isUnsuccessful = false)
    (hold : ∀ id ∈ order.plan.waveIds, old id = none) :
    ∃ q, waves env order post p = .ok (false, q) ∧ I q.world ∧
      (∀ id ∈ order.plan.waveIds, Stands fate id (q.state.stand id)) ∧
      ∀ x ∉ order.plan.waveIds, q.state.stand x = p.state.stand x := by
  induction post generalizing pre p with
  | nil =>
    refine ⟨p, rfl, hp, fun id hid => h.ended id ?_, fun _ _ => rfl⟩
    rwa [Plan.waveIds, hs, List.append_nil] at hid
  | cons w rest ih =>
    obtain ⟨t, q, rfl, hd⟩ := h.wave_done hund.steady hp hplan hs
    have hids : ∀ id ∈ t.wave.ids, id ∈ order.plan.waveIds := fun id hid =>
      List.mem_flatMap.mpr ⟨t.wave, hs ▸ by simp, hid⟩
    have hstands := h.stands hd hund hplan hfate hs hdone fun id hid => hold id (hids id hid)
    have hq := hd.after.world.kept
    obtain ⟨q', hclose⟩ := close_eq_ok (w := t.wave) hund hq
    obtain ⟨hworld, -, hsame⟩ := of_close_eq_ok hund.steady hq hclose
    have hothers : ∀ x ∉ t.wave.ids, q'.state.stand x = p.state.stand x := fun x hx =>
      (congrFun hsame x).trans (hd.others x hx)
    obtain ⟨r, hr, hrw, hended, hrest⟩ := ih (p := q') (by rw [hs, List.append_assoc]; rfl)
      ((h.step hd hplan hs hstands).congr hsame) hworld.kept fun b hb st hst => hdone b hb st <| by
        rw [← hst]
        exact (congrArg Prod.fst (hothers b fun hmem => hplan.not_mem_completed hs hmem hb)).symm
    refine ⟨r, ?_, hrw, hended, fun x hx => (hrest x hx).trans (hothers x fun hmem => hx (hids x hmem))⟩
    unfold waves
    simp only [hund.calm _ hp, hd.wave_eq_ok, bind, Except.bind, hund.calm _ hq, hclose, Bool.false_eq_true, ↓reduceIte]
    exact hr

/-- A run that nothing comes between is concluded, and each item of the plan stands as has become of it. -/
theorem whole_stand (hund : Undisturbed env I order verdict) (hplan : order.plan.Sound items completed policy)
    (hfate : Plan.Decreed completed order.plan verdict order.plan.waves fate) (hp : I p.world)
    (hstate : p.state.Begun completed) :
    ∃ s q, whole env order p = .ok (s, q) ∧ ∀ id ∈ order.plan.ids, Stands fate id (q.state.stand id) := by
  obtain ⟨q, hq, hworld, hindex, hblocked, hother, hbetween⟩ :=
    prepare_between (E := Stands fate) hund.steady hp hplan hstate.toFresh
  obtain ⟨r, hr, hrw, hended, hrest⟩ := waves_stand hund hplan hfate (List.nil_append _).symm hbetween hworld.kept
    (fun b hb st hst => by
      have hb' : b ∉ order.plan.ids := fun hmem => hplan.fresh b hmem hb
      have hst' : p.state.status? b = some st := by
        rw [← hst]
        exact (congrArg Prod.fst (hother b hb')).symm
      rcases hstate.statuses b st hst' with rfl | ⟨rfl, -⟩ <;> rfl)
    fun id hid => hstate.reason?_eq_none fun hc => hplan.fresh id (List.mem_append_left _ hid) hc
  obtain ⟨-, hsave⟩ := save_eq hund.steady hrw
  unfold whole conclude
  simp only [hq, hindex, List.drop_zero, hr, hsave, hund.saves _ _ hrw, bind, Except.bind]
  refine ⟨_, _, rfl, fun id hid => ?_⟩
  show Stands fate id (r.state.stand id)
  by_cases hw : id ∈ order.plan.waveIds
  · exact hended id hw
  · rcases List.mem_append.mp hid with hid | hid
    · exact absurd hid hw
    · obtain ⟨b, hb, rfl⟩ := List.mem_map.mp hid
      unfold Stands
      rw [hrest _ hw, hblocked b hb, hfate.blocked b hb]

end Execution

/-- What becomes of the items of a plan is as `Plan.Fates` says, and it becomes of them in each run that nothing comes
between: such a run gives a summary, whatever the surroundings, the number of workers and the order in which they
end. -/
theorem RunOrder.fates_of_build {items : List Item} {completed : StringSet} {policy : OrphanPolicy} {g : Graph}
    {plan : Plan} {verdict : Item → Status × Option String} (hg : Graph.build items completed policy = .ok g)
    (hp : Plan.build g completed = .ok plan)
    (hv : ∀ i, (verdict i).1 = .completed ∨ (verdict i).1 = .failed ∨ (verdict i).1 = .timeout) :
    plan.Fates items completed policy verdict (plan.fate verdict) ∧
      ∀ {σ : Type} (env : Surroundings σ) (I : σ → Prop) (order : RunOrder) (state : RunState) (world : σ),
        order.plan = plan → Execution.Undisturbed env I order verdict → I world → state.Begun completed →
        (∃ s, (order.run env state world).summary = .ok s) ∧
        ∀ id ∈ plan.ids, (order.run env state world).state.status? id = some (plan.fate verdict id).1 ∧
          (order.run env state world).state.reason? id = (plan.fate verdict id).2 := by
  have hplan := Plan.sound_of_build (Graph.built_of_build hg) hp
  have hfate := Plan.decreed_fate hplan verdict
  refine ⟨hfate.fates hplan hv, fun env I order state world ho hund hw hstate => ?_⟩
  subst ho
  obtain ⟨s, q, hq, hstands⟩ := Execution.whole_stand (p := { world := world, state := state })
    hund hplan hfate hw hstate
  unfold run
  rw [hq]
  exact ⟨⟨s, rfl⟩, fun id hid => ⟨congrArg Prod.fst (hstands id hid), congrArg Prod.snd (hstands id hid)⟩⟩

/-- What workers return with room for the workspace of `a` only. -/
def Plan.chainVerdict (i : Item) : Status × Option String :=
  if i.id = "a" then (.completed, some "no changes to merge")
  else (.failed, some "workspace creation failed: disk full")

namespace Surroundings

variable {setting : Worker.Setting}

theorem fullDisk_execute (hb : 3 ≤ setting.limits.budgetMs) (w : Nat) (i : Item) :
    Dialogue.Ends (Pool.Heard (fullDisk fun _ => false) setting (fun _ => True) w)
      (fun e => (e.status, e.reason) = Plan.chainVerdict i) (Worker.execute setting i) := by
  unfold Plan.chainVerdict
  rintro (e | v) ⟨t, -, h⟩
  · replace h : (.error e : Except Failure Workspace) =
      if i.id = "a" then .ok ⟨i.id, i.id, i.id⟩ else .error { cause := "disk full" } := h
    split at h
    · cases h
    · next hi =>
      cases h
      exact (if_neg hi).symm
  · replace h : (.ok v : Except Failure Workspace) =
      if i.id = "a" then .ok ⟨i.id, i.id, i.id⟩ else .error { cause := "disk full" } := h
    split at h
    · next hi =>
      intro _ _
      rintro e (⟨t, -, he⟩ | ⟨-, hstop⟩)
      · obtain rfl : e = FixEnd.finished ⟨0, "", ""⟩ := he.trans (if_pos hb)
        rintro _ ⟨_, -, rfl⟩ _ ⟨_, -, rfl⟩
        exact (if_pos hi).symm
      · cases hstop
    · cases h

theorem fullDisk_work (hb : 3 ≤ setting.limits.budgetMs) (w : Nat) (i : Item) :
    Dialogue.Ends (Pool.Heard (fullDisk fun _ => false) setting (fun _ => True) w)
      (fun o => (o.status, o.reason) = Plan.chainVerdict i) (Worker.work setting i) := by
  rintro _ ⟨⟨_, -, rfl⟩, -⟩
  intro start _ _ _
  refine (fullDisk_execute hb w i).andThen fun e he => ?_
  intro stop _ _ _ _ _
  exact he

theorem fullDisk_undisturbed {order : RunOrder} (hb : 3 ≤ order.limits.budgetMs) :
    Execution.Undisturbed (fullDisk fun _ => false) (fun _ => True) order Plan.chainVerdict where
  steady := fullDisk_steady fun _ _ h => h
  calm _ _ := rfl
  saves _ _ _ := rfl
  returns v _ i _ w _ o ho := by
    obtain ⟨past, hl, hp⟩ := ho
    have hb : 3 ≤ (Execution.setting order v.wave.index).limits.budgetMs := hb
    exact (fullDisk_work hb w i).leads hl hp

end Surroundings

theorem RunOrder.fates_of_chain : ∃ order : RunOrder,
    order.plan.ids.map (order.plan.fate Plan.chainVerdict) = [(.completed, some "no changes to merge"),
      (.failed, some "workspace creation failed: disk full"), (.skipped, some "blocked by b (failed)")] ∧
    order.plan.Fates Plan.chain ∅ .block Plan.chainVerdict (order.plan.fate Plan.chainVerdict) ∧
    (∃ s, (order.run (.fullDisk fun _ => false) (.new default) 0).summary = .ok s) ∧
    ∀ id ∈ order.plan.ids,
      (order.run (.fullDisk fun _ => false) (.new default) 0).state.status? id =
        some (order.plan.fate Plan.chainVerdict id).1 ∧
      (order.run (.fullDisk fun _ => false) (.new default) 0).state.reason? id =
        (order.plan.fate Plan.chainVerdict id).2 := by
  have h : ((Graph.build Plan.chain ∅ .block).bind fun g => (Plan.build g ∅).map fun p =>
      p.ids.map (p.fate Plan.chainVerdict)) = .ok [(.completed, some "no changes to merge"),
        (.failed, some "workspace creation failed: disk full"), (.skipped, some "blocked by b (failed)")] := by cbv
  obtain ⟨g, p, hg, hp, hv⟩ := Plan.exists_of_bind_eq_ok h
  have hverdict : ∀ i, (Plan.chainVerdict i).1 = .completed ∨ (Plan.chainVerdict i).1 = .failed ∨
      (Plan.chainVerdict i).1 = .timeout := fun i => by
    unfold Plan.chainVerdict
    split
    · exact .inl rfl
    · exact .inr (.inl rfl)
  have hbudget : 3 ≤ (⟨2, 1000, false⟩ : RunLimits).budgetMs := by decide
  obtain ⟨hfates, hrun⟩ := fates_of_build hg hp hverdict
  exact ⟨⟨"run", p, ⟨2, 1000, false⟩, {}⟩, hv, hfates,
    hrun _ _ _ _ 0 rfl (Surroundings.fullDisk_undisturbed hbudget) trivial RunState.begun_new⟩

end WorkWaves
