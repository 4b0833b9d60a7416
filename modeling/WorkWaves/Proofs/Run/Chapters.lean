import WorkWaves.Proofs.Run.Interrupt
import WorkWaves.Proofs.Run.Telling

/-!
# The chapters of a run

A run leaves three records: what it tells, the outcomes in its summary, and the state. They are written at different
moments, since a worker tells how its item ended long before the outcome is entered. A `Chapter` is what there is of
one wave in all three, and it `Fits` a state when they say the same of each item. A wave that is carried out adds one
(`Done.adds`, `Done.fits`), and the chapters of a run follow each other (`exists_recited_of_watch`).
-/

namespace WorkWaves

/-! ### Counting statuses -/

namespace StatusCounts

/-- How many items stand in a status. -/
def count (c : StatusCounts) : Status → Nat
  | .pending => c.pending
  | .running => c.running
  | .completed => c.completed
  | .failed => c.failed
  | .skipped => c.skipped
  | .timeout => c.timeout
  | .interrupted => c.interrupted

theorem count_add (c : StatusCounts) (x st : Status) : (c.add x).count st = c.count st + if x == st then 1 else 0 := by
  cases x <;> cases st <;> rfl

theorem total_add (c : StatusCounts) (x : Status) : (c.add x).total = c.total + 1 := by
  cases x <;> simp only [add, total] <;> omega

theorem count_ofList (l : List Status) (st : Status) : (ofList l).count st = l.count st := by
  have hfold (c : StatusCounts) : (l.foldl add c).count st = c.count st + l.count st := by
    induction l generalizing c with
    | nil => rfl
    | cons x l ih =>
      rw [List.foldl_cons, ih, count_add, List.count_cons]
      omega
  have hnone : ({} : StatusCounts).count st = 0 := by cases st <;> rfl
  rw [ofList, hfold, hnone, Nat.zero_add]

theorem total_ofList (l : List Status) : (ofList l).total = l.length := by
  have hfold (c : StatusCounts) : (l.foldl add c).total = c.total + l.length := by
    induction l generalizing c with
    | nil => rfl
    | cons x l ih =>
      rw [List.foldl_cons, ih, total_add, List.length_cons]
      omega
  exact (hfold {}).trans (Nat.zero_add _)

end StatusCounts

namespace Execution

variable {s s' : RunState} {ids : List String}

theorem count_countsOf (s : RunState) (ids : List String) (st : Status) :
    (countsOf s ids).count st = ids.countP fun id => s.status? id == some st := by
  rw [countsOf, StatusCounts.count_ofList, List.count, List.countP_filterMap]
  refine List.countP_congr fun id _ => ?_
  cases s.status? id <;> simp

theorem total_countsOf (h : ∀ id ∈ ids, s.status? id ≠ none) : (countsOf s ids).total = ids.length := by
  rw [countsOf, StatusCounts.total_ofList]
  induction ids with
  | nil => rfl
  | cons id ids ih =>
    obtain ⟨hid, hids⟩ := List.forall_mem_cons.mp h
    obtain ⟨st, hst⟩ := Option.ne_none_iff_exists'.mp hid
    rw [List.filterMap_cons_some hst, List.length_cons, ih hids, List.length_cons]

theorem countsOf_congr (h : ∀ id ∈ ids, s.status? id = s'.status? id) : countsOf s ids = countsOf s' ids :=
  congrArg StatusCounts.ofList (List.filterMap_congr h)

end Execution

/-! ### Chapters -/

/-- The outcome that is told of in an event. -/
def Event.ended? : Event → Option Outcome
  | itemEnd o => some o
  | _ => none

/-- The outcome of an item that can never run. -/
def BlockedItem.outcome (b : BlockedItem) : Outcome := .never b.itemId b.reason.message

/-- What there is of one wave in the records of a run. -/
structure Chapter where
  wave : RefinedWave
  /-- The outcomes of items that are passed over when the wave is opened. -/
  skipped : List Outcome
  /-- The outcomes of workers, as they come back. -/
  returned : List Outcome
  /-- What the workers tell. -/
  heard : List Event
  /-- Whether the wave is closed. -/
  closed : Bool

namespace Chapter

variable {plan : Plan} {s s' : RunState} {c : Chapter}

/-- What is told of a wave, in which the items stand as in a state when it is closed. -/
def events (plan : Plan) (s : RunState) (c : Chapter) : List Event :=
  .waveStart c.wave.wave.index plan.waves.length c.wave.ids c.wave.note ::
    (c.skipped.map .itemEnd ++ c.heard ++
      if c.closed then [.waveEnd c.wave.wave.index (Execution.countsOf s c.wave.ids)] else [])

/-- The outcomes of a wave. -/
def outcomes (c : Chapter) : List Outcome := c.skipped ++ c.returned

/-- A chapter fits a state if it has one outcome for each item of the wave, which says where the item stands, and if
the workers tell of their own outcomes, one in another. -/
structure Fits (s : RunState) (c : Chapter) : Prop where
  skipped : c.skipped.map (·.itemId) = c.wave.ids.filter fun id => s.status? id == some .skipped
  passedOver : ∀ o ∈ c.skipped, o.started = true
  ids : (c.outcomes.map (·.itemId)).Perm c.wave.ids
  waveIndex : ∀ o ∈ c.outcomes, o.waveIndex = some c.wave.wave.index
  status : ∀ o ∈ c.outcomes, s.status? o.itemId = some o.status
  heard : Interleaved (c.returned.map (Outcome.tellings c.wave.wave.index)) c.heard
  begun : c.closed = true → ∀ o ∈ c.returned, o.started = true

theorem events_congr (h : ∀ id ∈ c.wave.ids, s.status? id = s'.status? id) : c.events plan s = c.events plan s' := by
  unfold events
  rw [Execution.countsOf_congr h]

theorem Fits.mem_ids (h : c.Fits s) {o : Outcome} (ho : o ∈ c.outcomes) : o.itemId ∈ c.wave.ids :=
  h.ids.mem_iff.mp (List.mem_map_of_mem ho)

theorem Fits.congr (h : c.Fits s) (hs : ∀ id ∈ c.wave.ids, s'.status? id = s.status? id) : c.Fits s' where
  skipped := h.skipped.trans (List.filter_congr fun id hid => by rw [hs id hid])
  passedOver := h.passedOver
  ids := h.ids
  waveIndex := h.waveIndex
  status o ho := (hs _ (h.mem_ids ho)).trans (h.status o ho)
  heard := h.heard
  begun := h.begun

theorem filterMap_ended?_itemEnd (os : List Outcome) : (os.map Event.itemEnd).filterMap Event.ended? = os := by
  rw [List.filterMap_map]
  exact List.filterMap_some

theorem filterMap_ended?_tellings (n : Nat) (os : List Outcome) :
    (os.map (Outcome.tellings n)).flatten.filterMap Event.ended? = os.filter (·.started) := by
  induction os with
  | nil => rfl
  | cons o os ih =>
    rw [List.map_cons, List.flatten_cons, List.filterMap_append, ih]
    cases ho : o.started with
    | true =>
      rw [List.filter_cons_of_pos ho, Outcome.tellings, if_pos ho]
      rfl
    | false =>
      rw [List.filter_cons_of_neg (by simp [ho]), Outcome.tellings, if_neg (by simp [ho])]
      rfl

/-- It is told how an item ended just if work on it began or it was passed over. -/
theorem Fits.ends (h : c.Fits s) :
    ((c.events plan s).filterMap Event.ended?).Perm (c.outcomes.filter (·.started)) := by
  have hlast : (if c.closed then [Event.waveEnd c.wave.wave.index (Execution.countsOf s c.wave.ids)]
      else []).filterMap Event.ended? = [] := by
    split <;> rfl
  unfold events outcomes
  rw [List.filterMap_cons_none rfl, List.filterMap_append, List.filterMap_append, filterMap_ended?_itemEnd, hlast,
    List.append_nil, List.filter_append, List.filter_eq_self.mpr h.passedOver]
  refine List.Perm.append_left _ ?_
  rw [← filterMap_ended?_tellings c.wave.wave.index]
  exact (h.heard.flatten_perm.filterMap _).symm

end Chapter

namespace Execution

variable {σ : Type} {env : Surroundings σ} {I : σ → Prop} {order : RunOrder} {told : σ → List Event}
  {p q r : Progress σ} {es es' : List Event} {os os' : List Outcome} {o : Outcome} {plan : Plan} {t : Turn σ}
  {items : List Item} {completed : StringSet} {policy : OrphanPolicy} {pre post rest : List RefinedWave}
  {old : String → Option String} {chapters : List Chapter} {b : Bool}

/-! ### What the parts of a run add -/

/-- From one point of a run to another some events are told and some outcomes come in. -/
structure Adds (told : σ → List Event) (p : Progress σ) (es : List Event) (os : List Outcome) (q : Progress σ) :
    Prop where
  events : told q.world = told p.world ++ es
  outcomes : q.outcomes = p.outcomes ++ os

namespace Adds

theorem of_eq (hw : told q.world = told p.world) (ho : q.outcomes = p.outcomes) : Adds told p [] [] q :=
  ⟨hw.trans (List.append_nil _).symm, ho.trans (List.append_nil _).symm⟩

theorem refl (p : Progress σ) : Adds told p [] [] p := of_eq rfl rfl

theorem trans (h : Adds told p es os q) (h' : Adds told q es' os' r) : Adds told p (es ++ es') (os ++ os') r :=
  ⟨by rw [h'.events, h.events, List.append_assoc], by rw [h'.outcomes, h.outcomes, List.append_assoc]⟩

theorem tell (hhears : env.Hears told) (e : Event) (p : Progress σ) : Adds told p [e] [] (tell env e p) :=
  ⟨hhears.tell e p.world, (List.append_nil _).symm⟩

theorem write (hhears : env.Hears told) (level : LogLevel) (text : String) (fields : LogFields) (p : Progress σ) :
    Adds told p [] [] (write env level text fields p) :=
  of_eq (hhears.write _ p.world) rfl

end Adds

theorem of_skip_eq_ok (hhears : env.Hears told) (h : skip env o p = .ok q) :
    Adds told p [.itemEnd o] [o] q ∧ ∀ x, x ≠ o.itemId → q.state.status? x = p.state.status? x := by
  unfold skip at h
  cases hm : move env o.itemId o.status o.reason p with
  | error g =>
    rw [hm] at h
    cases h
  | ok r =>
    rw [hm] at h
    cases h
    obtain ⟨hw, hout, hother⟩ := of_move_eq_ok hm
    refine ⟨⟨(hhears.tell _ _).trans (by rw [hw]), by rw [← hout]; rfl⟩, fun x hx => ?_⟩
    exact (hother x).trans (if_neg hx)

theorem foldlM_skipBlocked_adds (hhears : env.Hears told) {l : List BlockedItem} (hn : (l.map (·.itemId)).Nodup)
    (hpend : ∀ b ∈ l, p.state.status? b.itemId = some .pending) (h : l.foldlM (skipBlocked env) p = .ok q) :
    Adds told p ((l.map BlockedItem.outcome).map .itemEnd) (l.map BlockedItem.outcome) q := by
  induction l generalizing p with
  | nil =>
    cases h
    exact .refl _
  | cons b l ih =>
    obtain ⟨hb, hn⟩ := List.nodup_cons.mp hn
    obtain ⟨hbp, hpend⟩ := List.forall_mem_cons.mp hpend
    rw [List.foldlM_cons] at h
    unfold skipBlocked at h
    rw [if_pos hbp] at h
    cases hs : skip env (.never b.itemId b.reason.message) (write env .warn "Item can never run"
        [("item_id", .text b.itemId), ("reason", .text b.reason.message)] p) with
    | error g =>
      rw [hs] at h
      cases h
    | ok r =>
      rw [hs] at h
      obtain ⟨hadds, hother⟩ := of_skip_eq_ok hhears hs
      refine ((Adds.write hhears _ _ _ p).trans hadds).trans (ih hn (fun c hc => ?_) h)
      exact (hother _ fun he => hb (List.mem_map.mpr ⟨c, hc, he⟩)).trans (hpend c hc)

/-- The outcomes of the items that are passed over. -/
def skips (plan : Plan) (s : RunState) (wave : Nat) (items : List Item) : List Outcome :=
  items.filterMap fun i => (unmetBlocker plan s i.id).map fun b => .passedOver i.id wave (blockedBy b)

theorem mem_skips {s : RunState} {wave : Nat} : o ∈ skips plan s wave items ↔
    ∃ i ∈ items, ∃ b, unmetBlocker plan s i.id = some b ∧ .passedOver i.id wave (blockedBy b) = o := by
  unfold skips
  simp only [List.mem_filterMap, Option.map_eq_some_iff]

theorem itemIds_skips (plan : Plan) (s : RunState) (wave : Nat) (items : List Item) :
    (skips plan s wave items).map (·.itemId) =
      (items.filter fun i => (unmetBlocker plan s i.id).isSome).map (·.id) := by
  induction items with
  | nil => rfl
  | cons i items ih =>
    unfold skips at ih ⊢
    cases hu : unmetBlocker plan s i.id with
    | none => rw [List.filterMap_cons_none (by rw [hu]; rfl), List.filter_cons_of_neg (by simp [hu]), ih]
    | some b =>
      rw [List.filterMap_cons_some (by rw [hu]; rfl), List.filter_cons_of_pos (by simp [hu]), List.map_cons,
        List.map_cons, ih]
      rfl

theorem choose_adds (hhears : env.Hears told) {wave : Nat} {chosen : List Item} (hn : (items.map (·.id)).Nodup)
    (hpend : ∀ i ∈ items, p.state.status? i.id = some .pending)
    (hapart : ∀ i ∈ items, ∀ b ∈ plan.blockersOf i.id, b ∉ items.map (·.id))
    (h : choose env plan wave items p = .ok (chosen, q)) :
    Adds told p ((skips plan p.state wave items).map .itemEnd) (skips plan p.state wave items) q := by
  induction items generalizing p chosen with
  | nil =>
    cases h
    exact .refl _
  | cons item rest ih =>
    obtain ⟨hitem, hn⟩ := List.nodup_cons.mp hn
    obtain ⟨hstatus, hpend⟩ := List.forall_mem_cons.mp hpend
    have hapart' : ∀ i ∈ rest, ∀ b ∈ plan.blockersOf i.id, b ∉ rest.map (·.id) := fun i hi b hb hmem =>
      hapart i (List.mem_cons_of_mem item hi) b hb (List.mem_cons_of_mem _ hmem)
    unfold choose at h
    simp only [hstatus] at h
    cases hu : unmetBlocker plan p.state item.id with
    | none =>
      have hskips : skips plan p.state wave (item :: rest) = skips plan p.state wave rest :=
        List.filterMap_cons_none (by rw [hu]; rfl)
      simp only [hu] at h
      cases hc : choose env plan wave rest p with
      | error g => simp [hc, bind, Except.bind] at h
      | ok x =>
        simp only [hc, bind, Except.bind] at h
        cases h
        exact hskips ▸ ih hn hpend hapart' hc
    | some b =>
      simp only [hu] at h
      cases hs : skip env (.passedOver item.id wave (blockedBy b)) (write env .info "Skipping item"
          [("item_id", .text item.id), ("blocker", .text b.1), ("status", .text b.2.text)] p) with
      | error g => simp [hs, bind, Except.bind] at h
      | ok p₁ =>
        simp only [hs, bind, Except.bind] at h
        obtain ⟨hadds, hother⟩ := of_skip_eq_ok hhears hs
        have hne : ∀ i ∈ rest, i.id ≠ item.id := fun i hi he => hitem (List.mem_map.mpr ⟨i, hi, he⟩)
        -- Skipping an item changes nothing for the others, since none of them waits for it.
        have hunmet : ∀ i ∈ rest, unmetBlocker plan p₁.state i.id = unmetBlocker plan p.state i.id := fun i hi =>
          unmetBlocker_congr fun c hc => hother c fun he =>
            hapart i (List.mem_cons_of_mem item hi) c hc (he ▸ List.mem_cons_self ..)
        have hskips : skips plan p.state wave (item :: rest) =
            .passedOver item.id wave (blockedBy b) :: skips plan p₁.state wave rest := by
          refine (List.filterMap_cons_some (by rw [hu]; rfl)).trans (congrArg _ ?_)
          exact List.filterMap_congr fun i hi => by rw [hunmet i hi]
        rw [hskips]
        refine ((Adds.write hhears _ _ _ p).trans hadds).trans (ih hn (fun i hi => ?_) hapart' h)
        exact (hother _ (hne i hi)).trans (hpend i hi)

/-- What is there to tell before the first wave. -/
theorem prepare_adds (hhears : env.Hears told) (hplan : order.plan.Sound items completed policy)
    (hfresh : p.state.Fresh completed) (h : prepare env order p = .ok q) :
    Adds told p (.runStart p.state.attempt order.plan.total order.plan.waves.length :: .plan order.plan ::
      (order.plan.blocked.map BlockedItem.outcome).map .itemEnd) (order.plan.blocked.map BlockedItem.outcome) q := by
  have hannounce : Adds told p
      [.runStart p.state.attempt order.plan.total order.plan.waves.length, .plan order.plan] []
      (announce env order { p with state := order.plan.ids.foldl RunState.register p.state }) := by
    refine ⟨?_, (List.append_nil _).symm⟩
    unfold announce
    rw [Execution.tell, hhears.tell, Execution.tell, hhears.tell, RunState.attempt_foldl_register, List.append_assoc]
    rfl
  refine hannounce.trans (foldlM_skipBlocked_adds hhears hplan.blocked_nodup.1 (fun b hb => ?_) h)
  exact congrArg Prod.fst
    (hfresh.stand_foldl_register hplan.fresh (List.mem_append_right _ (List.mem_map_of_mem hb)))

/-! ### One wave -/

variable (order) in
/-- The chapter of a turn that begins in a state. -/
def Turn.chapter (t : Turn σ) (s : RunState) (heard : List Event) (closed : Bool) : Chapter :=
  ⟨t.wave, skips order.plan s t.wave.wave.index t.wave.items, t.returned, heard, closed⟩

/-- Workers skip nothing, so the items that are skipped are those that were passed over. -/
theorem Done.passedOver_iff (hd : Done env I order p t q) (henv : env.Steady I) (hn : (t.items.map (·.id)).Nodup)
    (hpend : ∀ i ∈ t.items, t.opening.state.status? i.id = some .pending) {i : Item} (hi : i ∈ t.wave.items) :
    (unmetBlocker order.plan p.state i.id).isSome = (q.state.status? i.id == some .skipped) := by
  cases hu : unmetBlocker order.plan p.state i.id with
  | some b =>
    rw [show q.state.status? i.id = _ from congrArg Prod.fst (hd.skipped i hi b hu)]
    rfl
  | none =>
    have henter := hd.enterable henv hn hpend
    obtain ⟨o, ho, hid⟩ := List.mem_map.mp
      (hd.returned.mem_iff.mpr (List.mem_map_of_mem (hd.mem_items.mpr ⟨hi, hu⟩)))
    rw [← hid, (hd.reported henv hn hpend).2 o ho]
    have hne : o.status ≠ .skipped := fun he => by
      cases hs : o.started with
      | true => exact absurd (he ▸ henter.started o ho hs) (by decide)
      | false => exact absurd (he ▸ henter.notStarted o ho hs) (by decide)
    simp [hne]

/-- Without an interrupt all workers of a turn began: their items have ended, and one that is not begun has not. -/
theorem Done.begun (hd : Done env I order p t q) (henv : env.Steady I) (hn : (t.items.map (·.id)).Nodup)
    (hpend : ∀ i ∈ t.items, t.opening.state.status? i.id = some .pending) (hi : env.interrupted q.world ≠ true)
    (ho : o ∈ t.returned) : o.started = true := by
  obtain ⟨i, hmem, hid⟩ := List.mem_map.mp (hd.returned.mem_iff.mp (List.mem_map_of_mem ho))
  obtain ⟨st, hst, hterm⟩ := hd.ended hi i (hd.mem_items.mp hmem).1
  have hst : q.state.status? i.id = some st := hst
  rw [hid, (hd.reported henv hn hpend).2 o ho] at hst
  cases hs : o.started with
  | true => rfl
  | false =>
    rw [← Option.some.inj hst, (hd.enterable henv hn hpend).notStarted o ho hs] at hterm
    cases hterm

/-- The outcomes of a turn say where the items of its wave stand afterwards. -/
theorem Done.fits (hd : Done env I order p t q) (henv : env.Steady I) (hn : (t.items.map (·.id)).Nodup)
    (hpend : ∀ i ∈ t.items, t.opening.state.status? i.id = some .pending) {heard : List Event}
    (hheard : Interleaved (t.returned.map (Outcome.tellings t.wave.wave.index)) heard)
    (hb : b = true → env.interrupted q.world ≠ true) : (t.chapter order p.state heard b).Fits q.state where
  skipped := by
    refine (itemIds_skips ..).trans ?_
    rw [List.filter_congr fun i hi => hd.passedOver_iff henv hn hpend hi]
    exact (List.filter_map (p := fun id => q.state.status? id == some .skipped)).symm
  passedOver o ho := by
    obtain ⟨i, -, b, -, rfl⟩ := mem_skips.mp ho
    rfl
  ids := by
    show ((skips order.plan p.state t.wave.wave.index t.wave.items ++ t.returned).map (·.itemId)).Perm
      (t.wave.items.map (·.id))
    rw [List.map_append, itemIds_skips]
    refine (hd.returned.append_left _).trans ?_
    rw [hd.items, ← List.map_append]
    refine List.Perm.map _ ?_
    simpa using List.filter_append_perm (fun i : Item => (unmetBlocker order.plan p.state i.id).isSome) t.wave.items
  waveIndex o ho := by
    rcases List.mem_append.mp ho with ho | ho
    · obtain ⟨i, -, b, -, rfl⟩ := mem_skips.mp ho
      rfl
    · have hran := Pool.run_ran (setting order t.wave.wave.index) henv t.items hd.before.world.kept
      obtain ⟨_, _, hv⟩ := hran.returned o (hd.ran ▸ ho)
      exact hv.waveIndex
  status o ho := by
    rcases List.mem_append.mp ho with ho | ho
    · obtain ⟨i, hi, b, hu, rfl⟩ := mem_skips.mp ho
      exact congrArg Prod.fst (hd.skipped i hi b hu)
    · exact (hd.reported henv hn hpend).2 o ho
  heard := hheard
  begun hc o ho := hd.begun henv hn hpend (hb hc) ho

/-- What a turn adds, up to the point when its workers are back. -/
theorem Done.adds (hd : Done env I order p t q) (henv : env.Steady I) (hhears : env.Hears told)
    (hplan : order.plan.Sound items completed policy) (hs : order.plan.waves = pre ++ t.wave :: post)
    (h : Between Ended old pre (t.wave :: post) p.state) (hn : (t.items.map (·.id)).Nodup)
    (hpend : ∀ i ∈ t.items, t.opening.state.status? i.id = some .pending) :
    ∃ heard, Interleaved (t.returned.map (Outcome.tellings t.wave.wave.index)) heard ∧
      Adds told p ((t.chapter order p.state heard false).events order.plan q.state)
        (t.chapter order p.state heard false).outcomes q := by
  obtain ⟨heard, hheard, hwoven⟩ := Pool.exists_told_of_run (setting order t.wave.wave.index) t.items hhears henv
    hd.before.world.kept
  rw [← hd.ran] at hwoven
  have hopened : Adds told p (.waveStart t.wave.wave.index order.plan.waves.length t.wave.ids t.wave.note ::
      (skips order.plan p.state t.wave.wave.index t.wave.items).map .itemEnd)
      (skips order.plan p.state t.wave.wave.index t.wave.items) t.opening := by
    refine ((Adds.write hhears _ _ _ p).trans (Adds.tell hhears _ _)).trans
      (choose_adds hhears (hplan.wave_nodup hs).1 (fun i hi => ?_) (fun i hi b hb => ?_) hd.opened)
    · exact congrArg Prod.fst (h.pending i.id (List.mem_append_left _ (List.mem_map_of_mem hi)))
    · exact hplan.blockersOf_apart hs hi hb
  have hcarried : Adds told t.opening heard t.returned q :=
    ⟨by rw [(hd.reported henv hn hpend).1]; exact hheard, hd.entered⟩
  refine ⟨heard, hwoven, ?_⟩
  have := hopened.trans hcarried
  simpa [Chapter.events, Chapter.outcomes, Turn.chapter] using this

theorem of_save_eq_ok (h : save env p = .ok q) : q = { p with world := (env.save p.state p.world).2 } := by
  unfold save at h
  split at h
  · next hs =>
    cases h
    rw [hs]
  · cases h

theorem save_adds (hhears : env.Hears told) (h : save env p = .ok q) : Adds told p [] [] q := by
  rw [of_save_eq_ok h]
  exact .of_eq (hhears.save _ _) rfl

theorem close_adds (hhears : env.Hears told) {w : RefinedWave} (h : close env w p = .ok q) :
    Adds told p [.waveEnd w.wave.index (countsOf p.state w.ids)] [] q := by
  unfold close at h
  cases hs : save env { p with state := { p.state with waveIndex := w.wave.index + 1 } } with
  | error g => simp [hs, bind, Except.bind] at h
  | ok r =>
    simp only [hs, bind, Except.bind] at h
    cases h
    have hsaved : Adds told p [] [] r := by
      rw [of_save_eq_ok hs]
      exact .of_eq (hhears.save _ _) rfl
    exact hsaved.trans (Adds.tell hhears _ r)

/-- The chapters of some waves, which a run adds from one point to another; `b` says whether an interrupt ended it. -/
structure Recited (told : σ → List Event) (plan : Plan) (post : List RefinedWave) (p : Progress σ)
    (chapters : List Chapter) (b : Bool) (q : Progress σ) : Prop where
  adds : Adds told p (chapters.flatMap (Chapter.events plan q.state)) (chapters.flatMap Chapter.outcomes) q
  waves : chapters.map (·.wave) <+: post
  closed : ∀ c ∈ chapters.dropLast, c.closed = true
  all : b = false → chapters.map (·.wave) = post ∧ ∀ c ∈ chapters, c.closed = true
  fits : ∀ c ∈ chapters, c.Fits q.state

theorem Recited.cons {c : Chapter} (h : Recited told plan rest q chapters b r)
    (hadds : Adds told p (c.events plan r.state) c.outcomes q) (hfits : c.Fits r.state) (hc : c.closed = true) :
    Recited told plan (c.wave :: rest) p (c :: chapters) b r where
  adds := hadds.trans h.adds
  waves := (List.prefix_cons_inj _).mpr h.waves
  closed := by
    cases chapters with
    | nil => simp
    | cons c' chapters => exact List.forall_mem_cons.mpr ⟨hc, h.closed⟩
  all hb := ⟨congrArg _ (h.all hb).1, List.forall_mem_cons.mpr ⟨hc, (h.all hb).2⟩⟩
  fits := List.forall_mem_cons.mpr ⟨hfits, h.fits⟩

/-- The chapters of a run, one for each wave that is begun. -/
theorem exists_recited_of_watch (henv : env.Steady I) (hhears : env.Hears told)
    (hplan : order.plan.Sound items completed policy) (hs : order.plan.waves = pre ++ post)
    (h : Between Ended old pre post p.state) (hp : I p.world) (hq : (watch env order post p).2 = .ok (b, q)) :
    ∃ chapters, Recited told order.plan post p chapters b q := by
  induction post generalizing pre p with
  | nil =>
    cases hq
    exact ⟨[], .refl _, List.nil_prefix, by simp, fun _ => ⟨rfl, by simp⟩, by simp⟩
  | cons w rest ih =>
    obtain ⟨t, p₁, rfl, hd⟩ := h.wave_done henv hp hplan hs
    obtain ⟨hn, hpend⟩ := h.opening_pending henv hp hplan hs hd
    unfold watch at hq
    split at hq
    · cases hq
      exact ⟨[], .refl _, List.nil_prefix, by simp, by simp, by simp⟩
    · obtain ⟨heard, hwoven, hadds⟩ := hd.adds henv hhears hplan hs h hn hpend
      simp only [hd.opened, hd.carried, ← hd.ran] at hq
      split at hq
      · cases hq
        have hwritten := hadds.trans (Adds.write hhears .warn "Interrupted, persisting state"
          [("wave", .count t.wave.wave.index)] p₁)
        rw [List.append_nil, List.append_nil] at hwritten
        refine ⟨[t.chapter order p.state heard false], ?_, List.prefix_append [t.wave] rest, by simp, by simp, ?_⟩
        · rw [List.flatMap_singleton, List.flatMap_singleton]
          exact hwritten
        · exact List.forall_mem_singleton.mpr (hd.fits henv hn hpend hwoven (by simp))
      · next hi' =>
        cases hclose : close env t.wave p₁ with
        | error g =>
          rw [hclose] at hq
          cases hq
        | ok p₂ =>
          rw [hclose] at hq
          obtain ⟨hp₂, -, hstand⟩ := of_close_eq_ok henv hd.after.world.kept hclose
          have hs' : order.plan.waves = (pre ++ [t.wave]) ++ rest := by rw [hs, List.append_assoc]; rfl
          have hstep := (h.step hd hplan hs (hd.ended hi')).congr hstand
          obtain ⟨chapters, hrest⟩ := ih hs' hstep hp₂.kept hq
          -- The later waves leave the items of this one alone.
          have hothers := (watched_of_watch henv hplan hs' hstep hp₂.kept hq).others
          have hsame : ∀ id ∈ t.wave.ids, q.state.status? id = p₁.state.status? id := fun id hid =>
            congrArg Prod.fst ((hothers id ((hplan.wave_nodup hs).2 id hid).2).trans (congrFun hstand id))
          refine ⟨t.chapter order p.state heard true :: chapters,
            Recited.cons (c := t.chapter order p.state heard true) hrest ?_ ?_ rfl⟩
          · rw [Chapter.events_congr hsame]
            simpa [Chapter.events, Chapter.outcomes, Turn.chapter] using hadds.trans (close_adds hhears hclose)
          · exact (hd.fits henv hn hpend hwoven fun _ => hi').congr hsame

/-- It is told of the waves how items ended just if work on them began or they were passed over. -/
theorem Recited.ends {ws : List RefinedWave} (h : Recited told plan ws p chapters b q) :
    ((chapters.flatMap (Chapter.events plan q.state)).filterMap Event.ended?).Perm
      ((chapters.flatMap Chapter.outcomes).filter (·.started)) := by
  rw [List.filterMap_flatMap, List.filter_flatMap]
  exact List.Perm.flatMap_left chapters fun c hc => (h.fits c hc).ends

/-- The waves have one outcome for each of their items, except for waves that an interrupt kept from beginning. -/
theorem Recited.itemIds {ws : List RefinedWave} (h : Recited told plan ws p chapters b q) :
    ∃ later, (ws.flatMap RefinedWave.ids).Perm ((chapters.flatMap Chapter.outcomes).map (·.itemId) ++ later) ∧
      (b = false → later = []) := by
  have hbegun : ((chapters.flatMap Chapter.outcomes).map (·.itemId)).Perm
      ((chapters.map (·.wave)).flatMap RefinedWave.ids) := by
    rw [List.map_flatMap, List.flatMap_map]
    exact List.Perm.flatMap_left chapters fun c hc => (h.fits c hc).ids
  obtain ⟨later, hlater⟩ := h.waves
  refine ⟨later.flatMap RefinedWave.ids, ?_, fun hb => ?_⟩
  · rw [← hlater, List.flatMap_append]
    exact hbegun.symm.append_right _
  · rw [← (h.all hb).1, List.append_right_eq_self] at hlater
    rw [hlater]
    rfl

theorem Recited.started {ws : List RefinedWave} (h : Recited told plan ws p chapters false q) :
    ∀ o ∈ chapters.flatMap Chapter.outcomes, o.started = true := by
  intro o ho
  obtain ⟨c, hc, ho⟩ := List.mem_flatMap.mp ho
  rcases List.mem_append.mp ho with ho | ho
  · exact (h.fits c hc).passedOver o ho
  · exact (h.fits c hc).begun ((h.all rfl).2 c hc) o ho

end Execution

end WorkWaves
