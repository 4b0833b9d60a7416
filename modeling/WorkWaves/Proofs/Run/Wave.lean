import WorkWaves.Run.Execution
import WorkWaves.Proofs.Run.Pool
import WorkWaves.Proofs.Run.State

/-!
# What one wave does

None of the moves between statuses that a wave makes can be refused, so a wave is always carried out
(`wave_done`): an item with a blocker that did not end well is skipped and names the first such blocker, any other
item is worked on and ends as its worker says.
-/

namespace WorkWaves.Execution

variable {σ : Type} {env : Surroundings σ} {I : σ → Prop} {order : RunOrder} {plan : Plan} {p q r : Progress σ}

variable (env I) in
/-- A run comes from one point to a later one within the same wave. -/
structure Later (p q : Progress σ) : Prop where
  world : env.Onward I p.world q.world
  waveIndex : q.state.waveIndex = p.state.waveIndex
  outcomes : p.outcomes <+: q.outcomes

namespace Later

theorem refl (hp : I p.world) : Later env I p p := ⟨.refl hp, rfl, List.prefix_rfl⟩

theorem trans (h : Later env I p q) (h' : Later env I q r) : Later env I p r :=
  ⟨h.world.trans h'.world, h'.waveIndex.trans h.waveIndex, h.outcomes.trans h'.outcomes⟩

theorem tell (henv : env.Steady I) (hp : I p.world) (e : Event) : Later env I p (tell env e p) :=
  ⟨henv.tell e _ hp, rfl, List.prefix_rfl⟩

theorem write (henv : env.Steady I) (hp : I p.world) (level : LogLevel) (text : String) (fields : LogFields) :
    Later env I p (write env level text fields p) :=
  ⟨henv.write _ _ hp, rfl, List.prefix_rfl⟩

end Later

/-! ### Moves and skips -/

variable (env) in
theorem move_eq_ok {id : String} {target : Status} (reason : Option String)
    (h : ((p.state.status? id).getD .pending).allows target = true) :
    ∃ s, move env id target reason p = .ok { p with state := s } ∧ s.waveIndex = p.state.waveIndex ∧
      ∀ x, s.stand x = if x = id then (some target, reason.or (p.state.reason? id)) else p.state.stand x := by
  unfold move
  cases reason with
  | none =>
    obtain ⟨s, hs, hw, hx⟩ := RunState.setStatus_eq_ok (env.now p.world) h
    exact ⟨s, by simp only [hs], hw, hx⟩
  | some t =>
    obtain ⟨s, hs, hw, hx⟩ := RunState.setStatusFor_eq_ok (env.now p.world) t h
    exact ⟨s, by simp only [hs], hw, hx⟩

theorem skip_eq_ok (henv : env.Steady I) (hp : I p.world) {o : Outcome} {reason : String}
    (ho : o.status = .skipped) (hr : o.reason = some reason) (h : p.state.status? o.itemId = some .pending) :
    ∃ q, skip env o p = .ok q ∧ Later env I p q ∧
      ∀ x, q.state.stand x = if x = o.itemId then (some .skipped, some reason) else p.state.stand x := by
  have hallows : ((p.state.status? o.itemId).getD .pending).allows o.status = true := by
    rw [h, ho]
    rfl
  obtain ⟨s, hs, hw, hx⟩ := move_eq_ok env o.reason hallows
  have htell := henv.tell (.itemEnd o) p.world hp
  unfold skip
  simp only [hs, bind, Except.bind]
  refine ⟨_, rfl, ⟨htell, hw, List.prefix_append _ _⟩, fun x => ?_⟩
  show s.stand x = _
  rw [hx, ho, hr]
  rfl

theorem foldlM_skipBlocked_eq_ok (henv : env.Steady I) {l : List BlockedItem} (hp : I p.world)
    (hn : (l.map (·.itemId)).Nodup) (h : ∀ b ∈ l, p.state.status? b.itemId = some .pending) :
    ∃ q, l.foldlM (skipBlocked env) p = .ok q ∧ Later env I p q ∧
      (∀ b ∈ l, q.state.stand b.itemId = (some .skipped, some b.reason.message)) ∧
      ∀ x ∉ l.map (·.itemId), q.state.stand x = p.state.stand x := by
  induction l generalizing p with
  | nil => exact ⟨p, rfl, .refl hp, by simp, fun _ _ => rfl⟩
  | cons b l ih =>
    obtain ⟨hb, hn⟩ := List.nodup_cons.mp hn
    have hpend := h b (List.mem_cons_self ..)
    have hwrite := Later.write henv hp .warn "Item can never run"
      [("item_id", .text b.itemId), ("reason", .text b.reason.message)]
    obtain ⟨p₁, h₁, hlater₁, hstand₁⟩ := skip_eq_ok henv hwrite.world.kept (o := .never b.itemId b.reason.message)
      rfl rfl hpend
    have hother : ∀ x, x ≠ b.itemId → p₁.state.stand x = p.state.stand x := fun x hx => (hstand₁ x).trans (if_neg hx)
    obtain ⟨q, hq, hlater, hstand, hrest⟩ := ih (hwrite.trans hlater₁).world.kept hn fun c hc => by
      have hne : c.itemId ≠ b.itemId := fun he => hb (List.mem_map.mpr ⟨c, hc, he⟩)
      exact (congrArg Prod.fst (hother _ hne)).trans (h c (List.mem_cons_of_mem b hc))
    have hfirst : skipBlocked env p b = .ok p₁ := by
      unfold skipBlocked
      rw [if_pos hpend]
      exact h₁
    refine ⟨q, ?_, (hwrite.trans hlater₁).trans hlater, ?_, fun x hx => ?_⟩
    · rw [List.foldlM_cons, hfirst]
      exact hq
    · refine List.forall_mem_cons.mpr ⟨?_, hstand⟩
      rw [hrest _ hb, hstand₁]
      exact if_pos rfl
    · rw [List.map_cons, List.mem_cons, not_or] at hx
      rw [hrest x hx.2, hother x hx.1]

/-! ### Opening a wave -/

theorem findSome?_congr {α β : Type} {f g : α → Option β} {l : List α} (h : ∀ a ∈ l, f a = g a) :
    l.findSome? f = l.findSome? g := by
  induction l with
  | nil => rfl
  | cons a l ih =>
    rw [List.findSome?_cons, List.findSome?_cons, h a (List.mem_cons_self ..),
      ih fun b hb => h b (List.mem_cons_of_mem a hb)]

/-- Whether an item has an unmet blocker depends on nothing but the statuses of its blockers. -/
theorem unmetBlocker_congr {s t : RunState} {id : String}
    (h : ∀ b ∈ plan.blockersOf id, s.status? b = t.status? b) : unmetBlocker plan s id = unmetBlocker plan t id := by
  refine findSome?_congr fun b hb => ?_
  rw [h b hb]

theorem unmetBlocker_eq_none {s : RunState} {id : String} : unmetBlocker plan s id = none ↔
    ∀ b ∈ plan.blockersOf id, ∀ st, s.status? b = some st → st.isUnsuccessful = false := by
  unfold unmetBlocker
  rw [List.findSome?_eq_none_iff]
  refine forall₂_congr fun b _ => ?_
  cases s.status? b with
  | none => simp
  | some st => cases hu : st.isUnsuccessful <;> simp [hu]

/-- The items of an open wave are picked, and the others are skipped because of their blockers. -/
theorem choose_eq_ok (henv : env.Steady I) (wave : Nat) {items : List Item} (hp : I p.world)
    (hn : (items.map (·.id)).Nodup) (hpend : ∀ i ∈ items, p.state.status? i.id = some .pending)
    (hapart : ∀ i ∈ items, ∀ b ∈ plan.blockersOf i.id, b ∉ items.map (·.id)) :
    ∃ q, choose env plan wave items p =
        .ok (items.filter fun i => (unmetBlocker plan p.state i.id).isNone, q) ∧ Later env I p q ∧
      (∀ i ∈ items, q.state.stand i.id = match unmetBlocker plan p.state i.id with
        | some b => (some .skipped, some (blockedBy b))
        | none => p.state.stand i.id) ∧
      ∀ x ∉ items.map (·.id), q.state.stand x = p.state.stand x := by
  induction items generalizing p with
  | nil => exact ⟨p, rfl, .refl hp, by simp, fun _ _ => rfl⟩
  | cons item rest ih =>
    obtain ⟨hitem, hn⟩ := List.nodup_cons.mp hn
    have hstatus := hpend item (List.mem_cons_self ..)
    have hapart' : ∀ i ∈ rest, ∀ b ∈ plan.blockersOf i.id, b ∉ rest.map (·.id) := fun i hi b hb hmem =>
      hapart i (List.mem_cons_of_mem item hi) b hb (List.mem_cons_of_mem _ hmem)
    unfold choose
    cases hu : unmetBlocker plan p.state item.id with
    | none =>
      obtain ⟨q, hq, hlater, hstand, hother⟩ := ih hp hn (fun i hi => hpend i (List.mem_cons_of_mem item hi)) hapart'
      simp only [hstatus, hq, bind, Except.bind]
      refine ⟨q, ?_, hlater, ?_, fun x hx => hother x fun hmem => hx (List.mem_cons_of_mem _ hmem)⟩
      · rw [List.filter_cons_of_pos (by simp [hu])]
        rfl
      · refine List.forall_mem_cons.mpr ⟨?_, hstand⟩
        rw [hu]
        exact hother _ hitem
    | some b =>
      have hwrite := Later.write henv hp .info "Skipping item"
        [("item_id", .text item.id), ("blocker", .text b.1), ("status", .text b.2.text)]
      obtain ⟨p₁, h₁, hlater₁, hstand₁⟩ := skip_eq_ok henv hwrite.world.kept
        (o := .passedOver item.id wave (blockedBy b)) rfl rfl hstatus
      have hother₁ : ∀ x, x ≠ item.id → p₁.state.stand x = p.state.stand x := fun x hx =>
        (hstand₁ x).trans (if_neg hx)
      have hunmet : ∀ i ∈ rest, unmetBlocker plan p₁.state i.id = unmetBlocker plan p.state i.id := fun i hi =>
        unmetBlocker_congr fun c hc => congrArg Prod.fst <| hother₁ c fun he =>
          hapart i (List.mem_cons_of_mem item hi) c hc (he ▸ List.mem_cons_self ..)
      obtain ⟨q, hq, hlater, hstand, hother⟩ := ih (hwrite.trans hlater₁).world.kept hn
        (fun i hi => by
          have hne : i.id ≠ item.id := fun he => hitem (List.mem_map.mpr ⟨i, hi, he⟩)
          exact (congrArg Prod.fst (hother₁ _ hne)).trans (hpend i (List.mem_cons_of_mem item hi))) hapart'
      simp only [hstatus, h₁, hq, bind, Except.bind]
      refine ⟨q, ?_, (hwrite.trans hlater₁).trans hlater, ?_, fun x hx => ?_⟩
      · rw [List.filter_cons_of_neg (by simp [hu]), List.filter_congr fun i hi => by rw [hunmet i hi]]
      · refine List.forall_mem_cons.mpr ⟨?_, fun i hi => ?_⟩
        · rw [hu, hother _ hitem, hstand₁]
          exact if_pos rfl
        · have hne : i.id ≠ item.id := fun he => hitem (List.mem_map.mpr ⟨i, hi, he⟩)
          rw [hstand i hi, hunmet i hi, hother₁ _ hne]
      · rw [List.map_cons, List.mem_cons, not_or] at hx
        rw [hother x hx.2, hother₁ x hx.1]

/-! ### Entering outcomes -/

/-- Where an item stands when its worker is back. -/
def entered (s : RunState) (o : Outcome) : Option Status × Option String :=
  if o.started then (some o.status, o.reason.or (s.reason? o.itemId)) else s.stand o.itemId

variable (env) in
theorem enter_eq_ok {o : Outcome} (hpend : p.state.status? o.itemId = some .pending)
    (ho : o.started = true → Status.running.allows o.status = true) :
    ∃ q, enter env p o = .ok q ∧ q.world = p.world ∧ q.state.waveIndex = p.state.waveIndex ∧
      q.outcomes = p.outcomes ++ [o] ∧ q.state.stand o.itemId = entered p.state o ∧
      ∀ x, x ≠ o.itemId → q.state.stand x = p.state.stand x := by
  unfold enter entered
  by_cases hs : o.started = true
  · have hrun : ((p.state.status? o.itemId).getD .pending).allows .running = true := by
      rw [hpend]
      rfl
    obtain ⟨s₁, h₁, hw₁, hstand₁⟩ := move_eq_ok env none hrun
    have hrunning := (hstand₁ o.itemId).trans (if_pos rfl)
    have hstatus : s₁.status? o.itemId = some .running := congrArg Prod.fst hrunning
    have hreason : s₁.reason? o.itemId = p.state.reason? o.itemId := congrArg Prod.snd hrunning
    have hend : ((s₁.status? o.itemId).getD .pending).allows o.status = true := by
      rw [hstatus]
      exact ho hs
    obtain ⟨s₂, h₂, hw₂, hstand₂⟩ := move_eq_ok env (p := { p with state := s₁ }) o.reason hend
    simp only [hs, ↓reduceIte, h₁, h₂, bind, Except.bind]
    refine ⟨_, rfl, rfl, hw₂.trans hw₁, rfl, ?_, fun x hx => ?_⟩
    · rw [← hreason]
      exact (hstand₂ o.itemId).trans (if_pos rfl)
    · exact ((hstand₂ x).trans (if_neg hx)).trans ((hstand₁ x).trans (if_neg hx))
  · simp only [hs, Bool.false_eq_true, ↓reduceIte]
    exact ⟨_, rfl, rfl, rfl, rfl, rfl, fun _ _ => rfl⟩

variable (env) in
theorem foldlM_enter_eq_ok {os : List Outcome} (hn : (os.map (·.itemId)).Nodup)
    (hpend : ∀ o ∈ os, p.state.status? o.itemId = some .pending)
    (hos : ∀ o ∈ os, o.started = true → Status.running.allows o.status = true) :
    ∃ q, os.foldlM (enter env) p = .ok q ∧ q.world = p.world ∧ q.state.waveIndex = p.state.waveIndex ∧
      q.outcomes = p.outcomes ++ os ∧ (∀ o ∈ os, q.state.stand o.itemId = entered p.state o) ∧
      ∀ x ∉ os.map (·.itemId), q.state.stand x = p.state.stand x := by
  induction os generalizing p with
  | nil => exact ⟨p, rfl, rfl, rfl, (List.append_nil _).symm, by simp, fun _ _ => rfl⟩
  | cons o os ih =>
    obtain ⟨ho, hn⟩ := List.nodup_cons.mp hn
    obtain ⟨p₁, h₁, hw₁, hi₁, ho₁, hstand₁, hother₁⟩ := enter_eq_ok env (hpend o (List.mem_cons_self ..))
      (hos o (List.mem_cons_self ..))
    have hne : ∀ o' ∈ os, o'.itemId ≠ o.itemId := fun o' ho' he => ho (List.mem_map.mpr ⟨o', ho', he⟩)
    obtain ⟨q, hq, hw, hi, hout, hstand, hother⟩ := ih (p := p₁) hn
      (fun o' ho' => (congrArg Prod.fst (hother₁ _ (hne o' ho'))).trans (hpend o' (List.mem_cons_of_mem o ho')))
      fun o' ho' => hos o' (List.mem_cons_of_mem o ho')
    refine ⟨q, ?_, hw.trans hw₁, hi.trans hi₁, ?_, ?_, fun x hx => ?_⟩
    · rw [List.foldlM_cons, h₁]
      exact hq
    · rw [hout, ho₁, List.append_assoc]
      rfl
    · refine List.forall_mem_cons.mpr ⟨(hother _ ho).trans hstand₁, fun o' ho' => ?_⟩
      have hsame := hother₁ _ (hne o' ho')
      rw [hstand o' ho']
      unfold entered
      rw [hsame, show p₁.state.reason? o'.itemId = _ from congrArg Prod.snd hsame]
      rfl
    · rw [List.map_cons, List.mem_cons, not_or] at hx
      rw [hother x hx.2, hother₁ x hx.1]

/-! ### A whole wave -/

variable (order) in
theorem opening_eq_ok (henv : env.Steady I) {w : RefinedWave} (hp : I p.world) (hn : w.ids.Nodup)
    (hpend : ∀ id ∈ w.ids, p.state.status? id = some .pending)
    (hapart : ∀ i ∈ w.items, ∀ b ∈ order.plan.blockersOf i.id, b ∉ w.ids) :
    ∃ q, opening env order w p = .ok (w.items.filter fun i => (unmetBlocker order.plan p.state i.id).isNone, q) ∧
      Later env I p q ∧
      (∀ i ∈ w.items, q.state.stand i.id = match unmetBlocker order.plan p.state i.id with
        | some b => (some .skipped, some (blockedBy b))
        | none => p.state.stand i.id) ∧
      ∀ x ∉ w.ids, q.state.stand x = p.state.stand x := by
  have hwrite := Later.write henv hp .info "Starting wave"
    [("wave", .count w.wave.index), ("parent_wave", .count w.parentIndex), ("items", .count w.items.length)]
  have htell := hwrite.trans <|
    Later.tell henv hwrite.world.kept (.waveStart w.wave.index order.plan.waves.length w.ids w.note)
  obtain ⟨q, hq, hlater, hstand⟩ := choose_eq_ok henv w.wave.index htell.world.kept hn
    (fun i hi => hpend i.id (List.mem_map_of_mem hi)) hapart
  exact ⟨q, hq, htell.trans hlater, hstand⟩

/-- Outcomes of different items that are all pending, as workers return them. -/
structure Enterable (s : RunState) (os : List Outcome) : Prop where
  nodup : (os.map (·.itemId)).Nodup
  pending : ∀ o ∈ os, s.status? o.itemId = some .pending
  started : ∀ o ∈ os, o.started = true → Status.running.allows o.status = true
  notStarted : ∀ o ∈ os, o.started = false → o.status = .pending

theorem enterable_of_ran {setting : Worker.Setting} {items : List Item} {w : σ} {r : List Outcome × σ}
    (h : Pool.Ran env setting I items w r) (hn : (items.map (·.id)).Nodup) {s : RunState}
    (hpend : ∀ i ∈ items, s.status? i.id = some .pending) : Enterable s r.1 := by
  have hperm := h.itemIds
  have hreturned := h.returned
  refine ⟨hperm.nodup_iff.mpr hn, fun o ho => ?_, fun o ho hs => ?_, fun o ho hs => ?_⟩
  · obtain ⟨i, hi, hid⟩ := List.mem_map.mp (hperm.mem_iff.mp (List.mem_map_of_mem ho))
    exact hid ▸ hpend i hi
  · obtain ⟨_, _, hv⟩ := hreturned o ho
    exact (hv.started hs).allows
  · obtain ⟨_, _, hv⟩ := hreturned o ho
    exact (hv.notStarted hs).1

variable (order) in
/-- The workers of a wave come back with one outcome for each item, and these are entered. -/
theorem carryOut_eq_ok (henv : env.Steady I) (w : RefinedWave) {items : List Item} (hp : I p.world)
    (hn : (items.map (·.id)).Nodup) (hpend : ∀ i ∈ items, p.state.status? i.id = some .pending) :
    ∃ q, carryOut env order w items p = .ok q ∧ Later env I p q ∧
      q.outcomes = p.outcomes ++ (Pool.run env (setting order w.wave.index) items p.world).1 ∧
      ((Pool.run env (setting order w.wave.index) items p.world).1.map (·.itemId)).Perm (items.map (·.id)) ∧
      (∀ i ∈ items, ∃ o, Pool.Came env (setting order w.wave.index) I q.world i o ∧ q.state.stand i.id =
        if o.started then (some o.status, o.reason.or (p.state.reason? i.id)) else p.state.stand i.id) ∧
      ∀ x ∉ items.map (·.id), q.state.stand x = p.state.stand x := by
  have hran := Pool.run_ran (setting order w.wave.index) henv items hp
  rw [carryOut_eq]
  generalize Pool.run env (setting order w.wave.index) items p.world = r at hran ⊢
  have hperm := hran.itemIds
  have henter := enterable_of_ran hran hn hpend
  obtain ⟨hworld, l, hos, hitems, hcame⟩ := hran
  obtain ⟨q, hq, hw, hi, hout, hstand, hother⟩ := foldlM_enter_eq_ok env (p := { p with world := r.2 })
    henter.nodup henter.pending henter.started
  have hafter : Later env I p { q with wavesRun := q.wavesRun + 1 } :=
    ⟨show env.Onward I p.world q.world from hw ▸ hworld, hi, ⟨r.1, hout.symm⟩⟩
  refine ⟨{ q with wavesRun := q.wavesRun + 1 }, ?_, hafter, hout, hperm, fun i hmem => ?_, fun x hx => ?_⟩
  · simp only [hq, bind, Except.bind]
  · obtain ⟨e, he, rfl⟩ := List.mem_map.mp (hitems.mem_iff.mpr hmem)
    refine ⟨e.2, hw ▸ hcame e he, ?_⟩
    have := hstand e.2 (hos ▸ List.mem_map_of_mem he)
    obtain ⟨v, hv, -⟩ := (hcame e he).returned
    unfold entered at this
    rwa [hv.itemId] at this
  · exact hother x fun hmem => hx (hperm.mem_iff.mp hmem)

/-- A wave whose workers are started: the items that they have, how far the run is at that moment, and what they
return. -/
structure Turn (σ : Type) where
  wave : RefinedWave
  items : List Item
  opening : Progress σ
  returned : List Outcome

variable (env I order) in
/-- A wave is carried out from one point of a run to another, by this turn. -/
structure Done (p : Progress σ) (t : Turn σ) (q : Progress σ) : Prop where
  opened : opening env order t.wave p = .ok (t.items, t.opening)
  ran : t.returned = (Pool.run env (setting order t.wave.wave.index) t.items t.opening.world).1
  carried : carryOut env order t.wave t.items t.opening = .ok q
  before : Later env I p t.opening
  after : Later env I t.opening q
  items : t.items = t.wave.items.filter fun i => (unmetBlocker order.plan p.state i.id).isNone
  untouched : ∀ x ∉ t.wave.ids, t.opening.state.stand x = p.state.stand x
  entered : q.outcomes = t.opening.outcomes ++ t.returned
  returned : (t.returned.map (·.itemId)).Perm (t.items.map (·.id))
  skipped : ∀ i ∈ t.wave.items, ∀ b, unmetBlocker order.plan p.state i.id = some b →
    q.state.stand i.id = (some .skipped, some (blockedBy b))
  worked : ∀ i ∈ t.items, ∃ o, Pool.Came env (setting order t.wave.wave.index) I q.world i o ∧
    q.state.stand i.id = if o.started then (some o.status, o.reason.or (p.state.reason? i.id)) else p.state.stand i.id
  others : ∀ x ∉ t.wave.ids, q.state.stand x = p.state.stand x

/-- The workers have the items of the wave that have no unmet blocker. -/
theorem Done.mem_items {t : Turn σ} (h : Done env I order p t q) {i : Item} :
    i ∈ t.items ↔ i ∈ t.wave.items ∧ unmetBlocker order.plan p.state i.id = none := by
  rw [h.items, List.mem_filter, Option.isNone_iff_eq_none]

theorem Done.wave_eq_ok {t : Turn σ} (h : Done env I order p t q) : wave env order t.wave p = .ok q := by
  unfold wave
  simp only [h.opened, h.carried, bind, Except.bind]

/-- A wave is carried out if all its items are pending and none of them is a blocker of another one. -/
theorem wave_done (henv : env.Steady I) {w : RefinedWave} (hp : I p.world) (hn : w.ids.Nodup)
    (hpend : ∀ id ∈ w.ids, p.state.status? id = some .pending)
    (hapart : ∀ i ∈ w.items, ∀ b ∈ order.plan.blockersOf i.id, b ∉ w.ids) :
    ∃ t q, t.wave = w ∧ Done env I order p t q := by
  obtain ⟨p₁, h₁, hlater₁, hstand₁, hother₁⟩ := opening_eq_ok order henv hp hn hpend hapart
  have hchosen : ∀ i ∈ w.items.filter fun i => (unmetBlocker order.plan p.state i.id).isNone,
      i ∈ w.items ∧ p₁.state.stand i.id = p.state.stand i.id := fun i hi => by
    obtain ⟨hmem, hu⟩ := List.mem_filter.mp hi
    have := hstand₁ i hmem
    rw [Option.isNone_iff_eq_none.mp hu] at this
    exact ⟨hmem, this⟩
  have hsub : ((w.items.filter fun i => (unmetBlocker order.plan p.state i.id).isNone).map (·.id)).Sublist w.ids :=
    List.filter_sublist.map _
  obtain ⟨q, hq, hlater, hout, hperm, hstand, hother⟩ := carryOut_eq_ok order henv w
    hlater₁.world.kept (hn.sublist hsub) fun i hi =>
      (congrArg Prod.fst (hchosen i hi).2).trans (hpend i.id (List.mem_map_of_mem (hchosen i hi).1))
  refine ⟨⟨w, _, p₁, _⟩, q, rfl, h₁, rfl, hq, hlater₁, hlater, rfl, hother₁, hout, hperm, fun i hi b hb => ?_,
    fun i hi => ?_, fun x hx => ?_⟩
  · have hnot : i.id ∉ (w.items.filter fun i => (unmetBlocker order.plan p.state i.id).isNone).map (·.id) := by
      intro hmem
      obtain ⟨j, hj, hid⟩ := List.mem_map.mp hmem
      have hu := Option.isNone_iff_eq_none.mp (List.mem_filter.mp hj).2
      rw [hid, hb] at hu
      cases hu
    rw [hother _ hnot, hstand₁ i hi, hb]
  · obtain ⟨o, ho, hs⟩ := hstand i hi
    have hsame := (hchosen i hi).2
    rw [hsame, show p₁.state.reason? i.id = _ from congrArg Prod.snd hsame] at hs
    exact ⟨o, ho, hs⟩
  · rw [hother x fun hmem => hx (hsub.subset hmem), hother₁ x hx]

end WorkWaves.Execution
