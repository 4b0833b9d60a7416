import WorkWaves.Proofs.Run.State
import WorkWaves.Run.Execution

/-!
# What every run keeps

A property of worlds and states that all steps of a run keep is kept by whole runs, also by those that are given up
(`run_keeps`). A step is what is told, written or saved, a move, or the work of a pool, which only gets items that are
not completed. A property of states alone has only the moves to be kept by (`RunState.Kept`).
-/

namespace WorkWaves

/-- A property of worlds and states is kept by everything that a run does in them. -/
structure RunOrder.Keeps {σ : Type} (order : RunOrder) (env : Surroundings σ) (P : σ → RunState → Prop) : Prop where
  tell : ∀ e w s, P w s → P (env.tell e w) s
  write : ∀ r w s, P w s → P (env.write r w) s
  save : ∀ w s, P w s → P (env.save s w).2 s
  pool : ∀ setting items w s, P w s → (∀ i ∈ items, s.status? i.id ≠ some .completed) →
    P (Pool.run env setting items w).2 s
  register : ∀ id w s, P w s → P w (s.register id)
  setStatus : ∀ id target w s s', P w s → s.setStatus (env.now w) id target = .ok s' → P w s'
  setStatusFor : ∀ id target reason w s s', P w s → s.setStatusFor (env.now w) id target reason = .ok s' → P w s'
  waveIndex : ∀ v ∈ order.plan.waves, ∀ w s, P w s → P w { s with waveIndex := v.wave.index + 1 }

namespace Execution

variable {σ α β : Type} {env : Surroundings σ} {order : RunOrder} {P : σ → RunState → Prop} {p q : Progress σ}

/-- A point of a run with the property. -/
def At (P : σ → RunState → Prop) (p : Progress σ) : Prop := P p.world p.state

/-- A part of a run ends with the property, and so it does where the run is given up in it. -/
def Leaves (P : σ → RunState → Prop) (f : α → Progress σ) : Part σ α → Prop
  | .ok a => At P (f a)
  | .error g => At P g.progress

theorem Leaves.bind {f : α → Progress σ} {g : β → Progress σ} {x : Part σ α} {k : α → Part σ β}
    (h : Leaves P f x) (hk : ∀ a, x = .ok a → At P (f a) → Leaves P g (k a)) : Leaves P g (x >>= k) := by
  cases x with
  | ok a => exact hk a rfl h
  | error e => exact h

theorem foldlM_leaves {f : Progress σ → β → Part σ (Progress σ)}
    (hf : ∀ p b, At P p → Leaves P id (f p b)) (l : List β) (hp : At P p) : Leaves P id (l.foldlM f p) := by
  induction l generalizing p with
  | nil => exact hp
  | cons b l ih =>
    rw [List.foldlM_cons]
    exact (hf p b hp).bind fun _ _ h => ih h

/-! ### Items that are not completed -/

/-- What is not completed at a point of a run is not completed at the other. -/
def Spares (p q : Progress σ) : Prop := ∀ x, p.state.status? x ≠ some .completed → q.state.status? x ≠ some .completed

theorem of_move_eq_ok {id : String} {target : Status} {reason : Option String}
    (h : move env id target reason p = .ok q) : q.world = p.world ∧ q.outcomes = p.outcomes ∧
      ∀ x, q.state.status? x = if x = id then some target else p.state.status? x := by
  unfold move at h
  cases reason with
  | none =>
    cases hm : p.state.setStatus (env.now p.world) id target with
    | error m => simp [hm] at h
    | ok s =>
      simp only [hm] at h
      cases h
      refine ⟨rfl, rfl, fun x => (congrArg Prod.fst (RunState.stand_of_setStatus hm x)).trans ?_⟩
      split <;> rfl
  | some c =>
    cases hm : p.state.setStatusFor (env.now p.world) id target c with
    | error m => simp [hm] at h
    | ok s =>
      simp only [hm] at h
      cases h
      refine ⟨rfl, rfl, fun x => (congrArg Prod.fst (RunState.stand_of_setStatusFor hm x)).trans ?_⟩
      split <;> rfl

theorem skip_spares {o : Outcome} (ho : o.status = .skipped) (h : skip env o p = .ok q) : Spares p q := by
  intro x hx
  unfold skip at h
  cases hm : move env o.itemId o.status o.reason p with
  | error g => simp [hm, bind, Except.bind] at h
  | ok r =>
    simp only [hm, bind, Except.bind, pure, Except.pure, Except.ok.injEq] at h
    obtain ⟨-, -, hstatus⟩ := of_move_eq_ok hm
    rw [← h]
    show r.state.status? x ≠ some .completed
    rw [hstatus, ho]
    split
    · simp
    · exact hx

/-- No item that is picked is completed. -/
theorem choose_spares {plan : Plan} {wave : Nat} {items chosen : List Item}
    (h : choose env plan wave items p = .ok (chosen, q)) :
    Spares p q ∧ ∀ i ∈ chosen, q.state.status? i.id ≠ some .completed := by
  induction items generalizing p chosen with
  | nil =>
    cases h
    exact ⟨fun _ hx => hx, by simp⟩
  | cons item rest ih =>
    unfold choose at h
    split at h
    case h_3 =>
      obtain ⟨hrest, hchosen⟩ := ih h
      exact ⟨hrest, hchosen⟩
    all_goals
      next hst =>
      cases hu : unmetBlocker plan p.state item.id with
      | some b =>
        simp only [hu] at h
        cases hs : skip env (.passedOver item.id wave (blockedBy b)) (write env .info "Skipping item"
            [("item_id", .text item.id), ("blocker", .text b.1), ("status", .text b.2.text)] p) with
        | error g => simp [hs, bind, Except.bind] at h
        | ok r =>
          simp only [hs, bind, Except.bind] at h
          obtain ⟨hrest, hchosen⟩ := ih h
          exact ⟨fun x hx => hrest x (skip_spares rfl hs x hx), hchosen⟩
      | none =>
        simp only [hu] at h
        cases hc : choose env plan wave rest p with
        | error g => simp [hc, bind, Except.bind] at h
        | ok r =>
          simp only [hc, bind, Except.bind, pure, Except.pure, Except.ok.injEq, Prod.mk.injEq] at h
          obtain ⟨rfl, rfl⟩ := h
          obtain ⟨hrest, hchosen⟩ := ih hc
          exact ⟨hrest, List.forall_mem_cons.mpr ⟨hrest item.id (by simp [hst]), hchosen⟩⟩

/-! ### The parts of a run -/

theorem move_leaves (hP : order.Keeps env P) (x : String) (target : Status) (reason : Option String)
    (hp : At P p) : Leaves P id (move env x target reason p) := by
  cases reason with
  | none =>
    simp only [move]
    cases h : p.state.setStatus (env.now p.world) x target with
    | ok s => exact hP.setStatus _ _ _ _ _ hp h
    | error r =>
      show At P { p with state := r.state }
      rw [RunState.state_of_refused h]
      exact hp
  | some reason =>
    simp only [move]
    cases h : p.state.setStatusFor (env.now p.world) x target reason with
    | ok s => exact hP.setStatusFor _ _ _ _ _ _ hp h
    | error r =>
      show At P { p with state := r.state }
      rw [RunState.state_of_refused (RunState.setStatusFor_eq_error_iff.mp h)]
      exact hp

theorem skip_leaves (hP : order.Keeps env P) (o : Outcome) (hp : At P p) : Leaves P id (skip env o p) :=
  (move_leaves hP o.itemId o.status o.reason hp).bind fun _ _ h => hP.tell _ _ _ h

theorem prepare_leaves (hP : order.Keeps env P) (hp : At P p) : Leaves P id (prepare env order p) := by
  refine foldlM_leaves (fun q b hq => ?_) order.plan.blocked (hP.tell _ _ _ (hP.tell _ _ _ ?_))
  · unfold skipBlocked
    split
    · exact skip_leaves hP _ (hP.write _ _ _ hq)
    · exact hq
  · show P p.world (order.plan.ids.foldl RunState.register p.state)
    induction order.plan.ids generalizing p with
    | nil => exact hp
    | cons x ids ih => exact ih (p := { p with state := p.state.register x }) (hP.register x _ _ hp)

theorem choose_leaves (hP : order.Keeps env P) (plan : Plan) (wave : Nat) (items : List Item) (hp : At P p) :
    Leaves P Prod.snd (choose env plan wave items p) := by
  induction items generalizing p with
  | nil => exact hp
  | cons item rest ih =>
    unfold choose
    split
    case h_3 => exact ih (hP.write _ _ _ hp)
    all_goals
      cases unmetBlocker plan p.state item.id with
      | some b => exact (skip_leaves hP _ (by exact hP.write _ _ _ hp)).bind fun _ _ h => ih h
      | none => exact (ih hp).bind fun _ _ h => h

theorem enter_leaves (hP : order.Keeps env P) (o : Outcome) (hp : At P p) : Leaves P id (enter env p o) := by
  unfold enter
  split
  · refine (move_leaves hP o.itemId .running none hp).bind fun q _ hq => ?_
    exact (move_leaves hP o.itemId o.status o.reason hq).bind fun _ _ h => h
  · exact hp

theorem wave_leaves (hP : order.Keeps env P) (w : RefinedWave) (hp : At P p) : Leaves P id (wave env order w p) := by
  refine Leaves.bind (f := Prod.snd) (choose_leaves hP _ _ _ (hP.tell _ _ _ (hP.write _ _ _ hp))) fun r hr hleft => ?_
  show Leaves P id (carryOut env order w r.1 r.2)
  rw [carryOut_eq]
  refine Leaves.bind (f := id) (foldlM_leaves (fun _ o h => enter_leaves hP o h) _ ?_) fun _ _ h => h
  exact hP.pool _ _ _ _ hleft (choose_spares hr).2

theorem save_leaves (hP : order.Keeps env P) (hp : At P p) : Leaves P id (save env p) := by
  have hsaved := hP.save _ _ hp
  unfold save
  split
  · next hs => rw [hs] at hsaved; exact hsaved
  · next hs => rw [hs] at hsaved; exact hsaved

theorem waves_leaves (hP : order.Keeps env P) {ws : List RefinedWave} (hws : ∀ w ∈ ws, w ∈ order.plan.waves)
    (hp : At P p) : Leaves P Prod.snd (waves env order ws p) := by
  induction ws generalizing p with
  | nil => exact hp
  | cons w rest ih =>
    unfold waves
    split
    · exact hp
    · refine (wave_leaves hP w hp).bind fun q _ hq => ?_
      split
      · exact hP.write _ _ _ hq
      · refine Leaves.bind (f := id) ?_ fun _ _ h => ih (fun v hv => hws v (List.mem_cons_of_mem w hv)) h
        have hindex := hP.waveIndex w (hws w (List.mem_cons_self ..)) _ _ hq
        exact (save_leaves hP (by exact hindex)).bind fun _ _ h => hP.tell _ _ _ h

theorem whole_leaves (hP : order.Keeps env P) (hp : At P p) : Leaves P Prod.snd (whole env order p) := by
  refine (prepare_leaves hP hp).bind fun q _ hq => ?_
  refine (waves_leaves hP (fun v hv => List.mem_of_mem_drop hv) hq).bind fun r _ hr => ?_
  exact (save_leaves hP hr).bind fun _ _ h => hP.tell _ _ _ (hP.write _ _ _ h)

end Execution

/-- A run leaves a world and a state with each property that its steps keep. -/
theorem RunOrder.run_keeps {σ : Type} {order : RunOrder} {env : Surroundings σ} {P : σ → RunState → Prop}
    (hP : order.Keeps env P) {state : RunState} {world : σ} (h : P world state) :
    P (order.run env state world).world (order.run env state world).state := by
  have hleaves : Execution.Leaves P Prod.snd (Execution.whole env order { world := world, state := state }) :=
    Execution.whole_leaves hP h
  unfold run
  cases hw : Execution.whole env order { world := world, state := state } with
  | ok r => rwa [hw] at hleaves
  | error g => rwa [hw] at hleaves

/-- A property of states is kept by everything that a run does to its state. -/
structure RunState.Kept (P : RunState → Prop) : Prop where
  register : ∀ s id, P s → P (s.register id)
  setStatus : ∀ s now id target s', P s → s.setStatus now id target = .ok s' → P s'
  setStatusFor : ∀ s now id target reason s', P s → s.setStatusFor now id target reason = .ok s' → P s'
  waveIndex : ∀ s n, P s → P { s with waveIndex := n }

theorem RunState.Kept.keeps {P : RunState → Prop} (hP : RunState.Kept P) {σ : Type} (order : RunOrder)
    (env : Surroundings σ) : order.Keeps env fun _ s => P s where
  tell _ _ _ h := h
  write _ _ _ h := h
  save _ _ h := h
  pool _ _ _ _ h _ := h
  register id _ s h := hP.register s id h
  setStatus id target w s s' h hs := hP.setStatus s (env.now w) id target s' h hs
  setStatusFor id target reason w s s' h hs := hP.setStatusFor s (env.now w) id target reason s' h hs
  waveIndex _ _ _ s h := hP.waveIndex s _ h

theorem RunOrder.run_kept {P : RunState → Prop} (hP : RunState.Kept P) {σ : Type} (order : RunOrder)
    (env : Surroundings σ) {state : RunState} (world : σ) (h : P state) : P (order.run env state world).state :=
  order.run_keeps (hP.keeps order env) h

namespace RunState

theorem attempt_of_setStatus {s s' : RunState} {now : Timestamp} {id : String} {target : Status}
    (h : s.setStatus now id target = .ok s') : s'.attempt = s.attempt := by
  rw [setStatus_eq] at h
  split at h
  · cases h
    rfl
  · cases h

theorem attempt_kept (n : Nat) : Kept fun s => s.attempt = n where
  register _ _ h := attempt_register.trans h
  setStatus s now id target s' h hs := (attempt_of_setStatus hs).trans h
  setStatusFor s now id target reason s' h hs := by
    obtain ⟨t, ht, rfl⟩ := setStatusFor_eq_ok_iff.mp hs
    exact (attempt_of_setStatus ht).trans h
  waveIndex _ _ h := h

end RunState

end WorkWaves
