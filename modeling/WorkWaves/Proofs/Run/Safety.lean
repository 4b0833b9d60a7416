import WorkWaves.Proofs.Run.Between

/-!
# A worker starts only when what its item waits for is completed

`RunOrder.watched` is a run together with the turns of its waves: which items get workers, how far the run is at
that moment, and what the workers return. `turns_of_build`: whatever the workers return, in whatever order, and
whenever an interrupt comes, at each start every effective blocker is completed, and everything that workers of
earlier waves had to return is there.
-/

namespace WorkWaves

namespace Execution

variable {σ : Type} (env : Surroundings σ) (order : RunOrder)

/-- Runs waves, and notes the turns. -/
def watch : List RefinedWave → Progress σ → List (Turn σ) × Part σ (Bool × Progress σ)
  | [], p => ([], .ok (false, p))
  | w :: rest, p =>
    if env.interrupted p.world then ([], .ok (true, p))
    else
      match opening env order w p with
      | .error g => ([], .error g)
      | .ok (items, p) =>
        let t : Turn σ := ⟨w, items, p, (Pool.run env (setting order w.wave.index) items p.world).1⟩
        match carryOut env order w items p with
        | .error g => ([t], .error g)
        | .ok p =>
          if env.interrupted p.world then
            ([t], .ok (true, write env .warn "Interrupted, persisting state" [("wave", .count w.wave.index)] p))
          else
            match close env w p with
            | .error g => ([t], .error g)
            | .ok p =>
              let r := watch rest p
              (t :: r.1, r.2)

/-- Runs a plan from the wave that is due, and notes the turns. -/
def watchWhole (p : Progress σ) : List (Turn σ) × Part σ (Summary × Progress σ) :=
  match prepare env order p with
  | .error g => ([], .error g)
  | .ok q =>
    let r := watch env order (order.plan.waves.drop q.state.waveIndex) q
    (r.1, r.2.bind fun b => conclude env order (env.elapsed p.world) b.1 b.2)

theorem watch_snd (ws : List RefinedWave) (p : Progress σ) : (watch env order ws p).2 = waves env order ws p := by
  induction ws generalizing p with
  | nil => rfl
  | cons w rest ih =>
    unfold watch waves wave
    split
    · rfl
    · cases hopen : opening env order w p with
      | error g => rfl
      | ok r =>
        obtain ⟨items, q⟩ := r
        simp only [bind, Except.bind]
        cases hcarry : carryOut env order w items q with
        | error g => rfl
        | ok q' =>
          simp only
          split
          · rfl
          · cases hclose : close env w q' with
            | error g => rfl
            | ok q'' => exact ih q''

theorem watchWhole_snd (p : Progress σ) : (watchWhole env order p).2 = whole env order p := by
  unfold watchWhole whole
  cases hprep : prepare env order p with
  | error g => rfl
  | ok q =>
    simp only [watch_snd, bind, Except.bind]

end Execution

/-- Carries out a run order from a state on, and notes the turns. -/
def RunOrder.watched {σ : Type} (order : RunOrder) (env : Surroundings σ) (state : RunState) (world : σ) :
    List (Execution.Turn σ) × RunResult σ :=
  let r := Execution.watchWhole env order { world := world, state := state }
  (r.1, .of r.2)

theorem RunOrder.watched_snd {σ : Type} (order : RunOrder) (env : Surroundings σ) (state : RunState) (world : σ) :
    (order.watched env state world).2 = order.run env state world := by
  unfold RunOrder.run
  rw [← Execution.watchWhole_snd]
  rfl

namespace Execution

variable {σ : Type} {env : Surroundings σ} {order : RunOrder} {p q : Progress σ} {items : List Item}
  {completed : StringSet} {policy : OrphanPolicy} {pre post : List RefinedWave} {old : String → Option String}

/-- An item stands in a status with which it is done with. -/
def Ended (_ : String) (x : Option Status × Option String) : Prop := ∃ st, x.1 = some st ∧ st.isTerminal = true

variable (env order) in
/-- Everything that a turn waits for is completed when its workers start, and each of them returns an outcome. -/
structure Turn.Safe (items : List Item) (completed : StringSet) (policy : OrphanPolicy) (t : Turn σ) : Prop where
  ran : t.returned = (Pool.run env (setting order t.wave.wave.index) t.items t.opening.world).1
  mem : ∀ i ∈ t.items, i ∈ t.wave.items
  completed : ∀ i ∈ t.items, ∀ b, Graph.Awaits items completed policy i b →
    b ∈ completed ∨ t.opening.state.status? b = some .completed
  returned : (t.returned.map (·.itemId)).Perm (t.items.map (·.id))

theorem eq_completed {st : Status} (ht : st.isTerminal = true) (hu : st.isUnsuccessful = false) :
    st = .completed := by
  cases st with
  | completed => rfl
  | pending | running => cases ht
  | failed | skipped | timeout | interrupted => exact absurd hu (by decide)

theorem Between.turn_safe {t : Turn σ} (h : Between Ended old pre (t.wave :: post) p.state)
    (hd : Done env (fun _ => True) order p t q) (hplan : order.plan.Sound items completed policy)
    (hs : order.plan.waves = pre ++ t.wave :: post) : t.Safe env order items completed policy := by
  refine ⟨hd.ran, fun i hi => (hd.mem_items.mp hi).1, fun i hi b hb => ?_, hd.returned⟩
  · obtain ⟨hi, hu⟩ := hd.mem_items.mp hi
    have hmem := hplan.mem_items t.wave (hs ▸ by simp) i hi
    have hb := (hplan.mem_blockersOf i hmem b).mpr hb
    refine (hplan.blockersOf_earlier hs hi hb).imp_right fun hpre => ?_
    obtain ⟨st, hst, hterm⟩ := h.ended b hpre
    have hst : p.state.status? b = some st := hst
    have hsame := hd.untouched b (hplan.blockersOf_apart hs hi hb)
    have hunmet := unmetBlocker_eq_none.mp hu b hb st hst
    rw [show t.opening.state.status? b = _ from congrArg Prod.fst hsame]
    exact hst.trans (congrArg some (eq_completed hterm hunmet))

/-- Without an interrupt, every item of a wave that was carried out has ended. -/
theorem Done.ended {I : σ → Prop} {t : Turn σ} (hd : Done env I order p t q)
    (hi : env.interrupted q.world ≠ true) : ∀ i ∈ t.wave.items, Ended i.id (q.state.stand i.id) := by
  intro i hmem
  cases hu : unmetBlocker order.plan p.state i.id with
  | some b => exact ⟨.skipped, congrArg Prod.fst (hd.skipped i hmem b hu), rfl⟩
  | none =>
    obtain ⟨o, ho, hstand⟩ := hd.worked i (hd.mem_items.mpr ⟨hmem, hu⟩)
    obtain ⟨hs, hterm⟩ := ho.started hi
    rw [if_pos hs] at hstand
    exact ⟨o.status, congrArg Prod.fst hstand, hterm⟩

theorem watch_safe (henv : env.Steady fun _ => True) (hplan : order.plan.Sound items completed policy)
    (hs : order.plan.waves = pre ++ post) (h : Between Ended old pre post p.state) :
    ((watch env order post p).1.map (·.wave) <+: post) ∧
    (∀ t ∈ (watch env order post p).1, p.outcomes <+: t.opening.outcomes ∧ t.Safe env order items completed policy) ∧
    (watch env order post p).1.Pairwise fun t t' => ∀ o ∈ t.returned, o ∈ t'.opening.outcomes := by
  induction post generalizing pre p with
  | nil => exact ⟨List.prefix_rfl, by simp [watch], .nil⟩
  | cons w rest ih =>
    obtain ⟨t, q, rfl, hd⟩ := h.wave_done henv trivial hplan hs
    have hsafe := h.turn_safe hd hplan hs
    have hbefore := hd.before.outcomes
    unfold watch
    split
    · exact ⟨List.nil_prefix, by simp, .nil⟩
    · simp only [hd.opened, hd.carried, ← hd.ran]
      have hone : (([t].map (·.wave)) <+: t.wave :: rest) ∧
          (∀ t' ∈ [t], p.outcomes <+: t'.opening.outcomes ∧ t'.Safe env order items completed policy) ∧
          [t].Pairwise fun t t' => ∀ o ∈ t.returned, o ∈ t'.opening.outcomes :=
        ⟨List.prefix_append [t.wave] rest, List.forall_mem_singleton.mpr ⟨hbefore, hsafe⟩, List.pairwise_singleton _ _⟩
      split
      · exact hone
      · next hi =>
        have hstep := h.step hd hplan hs (hd.ended hi)
        cases hclose : close env t.wave q with
        | error g => exact hone
        | ok q' =>
          obtain ⟨-, hout, hstand⟩ := of_close_eq_ok henv trivial hclose
          have hs' : order.plan.waves = (pre ++ [t.wave]) ++ rest := by rw [hs, List.append_assoc]; rfl
          obtain ⟨hpre, hall, hpair⟩ := ih hs' (hstep.congr hstand)
          have hq : ∀ t' ∈ (watch env order rest q').1, q.outcomes <+: t'.opening.outcomes := fun t' ht' =>
            hout ▸ (hall t' ht').1
          refine ⟨(List.prefix_cons_inj _).mpr hpre, List.forall_mem_cons.mpr ⟨⟨hbefore, hsafe⟩, fun t' ht' => ?_⟩,
            List.pairwise_cons.mpr ⟨fun t' ht' o ho => ?_, hpair⟩⟩
          · exact ⟨(hbefore.trans hd.after.outcomes).trans (hq t' ht'), (hall t' ht').2⟩
          · refine (hq t' ht').subset ?_
            rw [hd.entered]
            exact List.mem_append_right _ ho

end Execution

/-- In a run of a plan from a state with which a run begins, a worker starts only when all that its item awaits is
completed, and the workers of a wave start only when each worker of the waves before has returned its outcome. This
holds for all surroundings in which an interrupt stays. -/
theorem RunOrder.turns_of_build {items : List Item} {completed : StringSet} {policy : OrphanPolicy} {g : Graph}
    {order : RunOrder} {state : RunState} {σ : Type} {env : Surroundings σ}
    (hg : Graph.build items completed policy = .ok g) (hp : Plan.build g completed = .ok order.plan)
    (hstate : state.Fresh completed) (henv : env.Steady fun _ => True) (world : σ) :
    ∃ turns : List (Execution.Turn σ), order.watched env state world = (turns, order.run env state world) ∧
      turns.map (·.wave) <+: order.plan.waves ∧
      (∀ t ∈ turns, ∀ i ∈ t.items, i ∈ t.wave.items ∧ ∀ b, Graph.Awaits items completed policy i b →
        b ∈ completed ∨ t.opening.state.status? b = some .completed) ∧
      (∀ t ∈ turns,
        t.returned = (Pool.run env (Execution.setting order t.wave.wave.index) t.items t.opening.world).1 ∧
        (t.returned.map (·.itemId)).Perm (t.items.map (·.id))) ∧
      turns.Pairwise fun t t' => ∀ o ∈ t.returned, o ∈ t'.opening.outcomes := by
  have hplan := Plan.sound_of_build (Graph.built_of_build hg) hp
  obtain ⟨q, hq, -, hindex, -, -, hbetween⟩ := Execution.prepare_between (E := Execution.Ended)
    (p := { world := world, state := state }) henv trivial hplan hstate
  obtain ⟨hpre, hsafe, hpair⟩ := Execution.watch_safe henv hplan (List.nil_append _).symm hbetween
  have hturns : (order.watched env state world).1 = (Execution.watch env order order.plan.waves q).1 := by
    show (Execution.watchWhole env order { world := world, state := state }).1 = _
    unfold Execution.watchWhole
    simp only [hq, hindex, List.drop_zero]
  refine ⟨(order.watched env state world).1, Prod.ext rfl (order.watched_snd env state world), ?_⟩
  rw [hturns]
  refine ⟨hpre, fun t ht i hi => ?_, fun t ht => ⟨(hsafe t ht).2.ran, (hsafe t ht).2.returned⟩, hpair⟩
  exact ⟨(hsafe t ht).2.mem i hi, (hsafe t ht).2.completed i hi⟩

/-- Surroundings with room for the workspace of `a` only, and with a fixer that changes nothing. All there is of the
world is the time, which says whether there is an interrupt. -/
def Surroundings.fullDisk (stop : Nat → Bool) : Surroundings Nat where
  errand e w := (⟨match e with
    | .create id => if id = "a" then .ok ⟨id, id, id⟩ else .error { cause := "disk full" }
    | .commit _ _ => .ok false
    | .remove _ => .ok ()
    | .repository _ .existing => fun _ => false
    | .repository _ .head | .repository _ .dirtyFiles | .repository _ (.merge _ _) | .repository _ .abort
    | .repository _ .stashPop | .repository _ (.stashPush _ _) | .repository _ (.resetHard _)
    | .repository _ (.resetMerge _) => .error { cause := "no repository" }, 5⟩, w)
  fix _ w := (⟨.ok ⟨0, "", ""⟩, 3⟩, w)
  tell _ w := w
  write _ w := w
  save _ w := (.ok (), w)
  interrupted := stop
  elapsed w := w
  pass t w := max t w
  now _ := default

theorem Surroundings.fullDisk_steady {stop : Nat → Bool} (h : ∀ t w, stop w = true → stop (max t w) = true) :
    (fullDisk stop).Steady fun _ => True where
  errand _ _ hw := .refl hw
  fix _ _ hw := .refl hw
  tell _ _ hw := .refl hw
  write _ _ hw := .refl hw
  save _ _ hw := .refl hw
  pass t w _ := ⟨trivial, h t w⟩

/-- Each of three items waits for the one before. -/
def Plan.chain : List Item :=
  [{ id := "b", blockedBy := .ofList ["a"] }, { id := "a" }, { id := "c", blockedBy := .ofList ["b"] }]

theorem RunOrder.turns_of_chain : ∃ order : RunOrder, ∃ turns : List (Execution.Turn Nat),
    order.watched (.fullDisk (20 ≤ ·)) (.new default) 0 = (turns, order.run (.fullDisk (20 ≤ ·)) (.new default) 0) ∧
      turns.map (fun t => t.items.map (·.id)) = [["a"], ["b"]] ∧
      turns.map (·.wave) <+: order.plan.waves ∧
      (∀ t ∈ turns, ∀ i ∈ t.items, i ∈ t.wave.items ∧ ∀ b, Graph.Awaits Plan.chain ∅ .block i b →
        b ∈ (∅ : StringSet) ∨ t.opening.state.status? b = some .completed) ∧
      (∀ t ∈ turns, t.returned =
          (Pool.run (.fullDisk (20 ≤ ·)) (Execution.setting order t.wave.wave.index) t.items t.opening.world).1 ∧
        (t.returned.map (·.itemId)).Perm (t.items.map (·.id))) ∧
      turns.Pairwise fun t t' => ∀ o ∈ t.returned, o ∈ t'.opening.outcomes := by
  have h : ((Graph.build Plan.chain ∅ .block).bind fun g => (Plan.build g ∅).map fun p =>
      ((⟨"run", p, ⟨2, 1000, false⟩, {}⟩ : RunOrder).watched (.fullDisk (20 ≤ ·)) (.new default) 0).1.map
        fun t => t.items.map (·.id)) = .ok [["a"], ["b"]] := by cbv
  obtain ⟨g, p, hg, hp, hv⟩ := Plan.exists_of_bind_eq_ok h
  have hp : Plan.build g ∅ = .ok (⟨"run", p, ⟨2, 1000, false⟩, {}⟩ : RunOrder).plan := hp
  have hstop : ∀ t w : Nat, decide (20 ≤ w) = true → decide (20 ≤ max t w) = true := by
    intro t w h
    simp only [decide_eq_true_eq] at h ⊢
    omega
  obtain ⟨turns, hturns, hall⟩ := turns_of_build hg hp RunState.fresh_new (Surroundings.fullDisk_steady hstop) 0
  rw [hturns] at hv
  exact ⟨_, turns, hturns, hv, hall⟩

end WorkWaves
