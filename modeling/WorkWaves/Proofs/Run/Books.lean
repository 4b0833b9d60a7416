import WorkWaves.Proofs.Run.Staff

/-!
# Books are kept

One lemma for each thing that can happen in a pool: the books agree afterwards, and there is less left to do.
-/

namespace WorkWaves

open Dialogue

namespace Pool

variable {σ : Type} {env : Surroundings σ} {setting : Worker.Setting} {I : σ → Prop} {items : List Item}
  {workers : Nat} {w₀ : σ} {p : Pool σ} {s : Staff}

/-! ### Waking the workers that wait for their fixer -/

/-- Some of the workers that slept are awake. -/
structure Roused (env : Surroundings σ) (setting : Worker.Setting) (I : σ → Prop) (w : σ)
    (slept : List (Hand × Sleeper)) (woken : List Hand) (asleep : List (Hand × Sleeper)) : Prop where
  ok : ∀ h ∈ woken, h.Ok env setting I w
  items : ∀ i, (woken.map (·.item) ++ asleep.map (·.1.item)).count i = (slept.map (·.1.item)).count i
  length : woken.length + asleep.length = slept.length
  holders : woken.countP (·.held) + (asleep.map (·.1)).countP (·.held) = (slept.map (·.1)).countP (·.held)
  load : (woken.map fun h => 2 * h.left + 1).sum + (asleep.map fun n => 2 * n.1.left).sum + woken.length ≤
    (slept.map fun n => 2 * n.1.left).sum

theorem exists_roused {w : σ} (hw : I w) (hi : env.interrupted w = true) {l : List (Hand × Sleeper)}
    (hok : ∀ n ∈ l, n.1.Ok env setting I w) (hl : ∀ n ∈ l, Naps env setting I n.1 n.2) :
    ∃ woken : List Hand, (l.map (·.2)).filterMap (·.onInterrupt) = woken.map (·.talk) ∧
      Roused env setting I w l woken (l.filter (·.2.onInterrupt.isNone)) := by
  induction l with
  | nil => exact ⟨[], rfl, by simp, by simp, rfl, rfl, by simp⟩
  | cons n l ih =>
    obtain ⟨woken, hwoken, h⟩ := ih (fun m hm => hok m (List.mem_cons_of_mem n hm))
      fun m hm => hl m (List.mem_cons_of_mem n hm)
    have hn := hl n (List.mem_cons_self ..)
    have hnok := hok n (List.mem_cons_self ..)
    obtain ⟨hhok, hitems, hlength, hholders, hload⟩ := h
    cases ht : n.2.onInterrupt with
    | none =>
      refine ⟨woken, by simp [ht, hwoken], hhok, fun i => ?_, ?_, ?_, ?_⟩
      · have := hitems i
        simp [ht, List.count_cons] at this ⊢
        omega
      · simp [ht]
        omega
      · simp [ht, List.countP_cons] at hholders ⊢
        omega
      · simp [ht] at hload ⊢
        omega
    | some t =>
      obtain ⟨h', rfl, hnext, hok'⟩ := hn.rouse hnok hw hi ht
      refine ⟨h' :: woken, by simp [ht, hwoken], ?_, fun i => ?_, ?_, ?_, ?_⟩
      · exact List.forall_mem_cons.mpr ⟨hok', hhok⟩
      · have := hitems i
        simp [ht, List.count_cons, hnext.item] at this ⊢
        omega
      · simp [ht]
        omega
      · simp [ht, List.countP_cons, hnext.held] at hholders ⊢
        omega
      · have := hn.left_pos hnok
        have := hnext.length
        simp [ht, Hand.left] at hload ⊢
        omega

theorem Books.rouse (h : Books env setting I items workers w₀ p s) :
    ∃ s', Books env setting I items workers w₀ (p.rouse env) s' ∧ s'.now = s.now ∧ load (p.rouse env) s' ≤ load p s ∧
      (env.interrupted p.world = true → (∃ n ∈ p.sleeping, n.onInterrupt.isSome = true) →
        load (p.rouse env) s' < load p s) := by
  unfold Pool.rouse
  split
  · next hi =>
    obtain ⟨woken, hwoken, hr⟩ := exists_roused h.world.kept hi h.okSleeping h.naps
    have hload := hr.load
    refine ⟨{ s with ready := s.ready ++ woken, sleeping := s.sleeping.filter (·.2.onInterrupt.isNone) },
      { h with ready := ?_, sleeping := ?_, okReady := ?_, okSleeping := ?_, naps := ?_, items := ?_, permits := ?_,
               holders := ?_ }, rfl, ?_, ?_⟩
    · simp only [h.ready, h.sleeping, hwoken, List.map_append]
    · simp only [h.sleeping, List.filter_map]
      rfl
    · exact List.forall_mem_append.mpr ⟨h.okReady, hr.ok⟩
    · exact fun n hn => h.okSleeping n (List.mem_filter.mp hn).1
    · exact fun n hn => h.naps n (List.mem_filter.mp hn).1
    · intro i
      have := h.items i
      have := hr.items i
      simp only [List.map_append, List.count_append] at this ⊢
      omega
    · have := h.permits
      have := hr.length
      simp only [List.length_append]
      omega
    · have := h.holders
      have := hr.holders
      simp only [List.countP_append]
      omega
    · simp only [load, List.map_append, List.sum_append]
      omega
    · rintro - ⟨n, hn, hsome⟩
      have hpos : 0 < woken.length := by
        have hmem : n.onInterrupt.get hsome ∈ (s.sleeping.map (·.2)).filterMap (·.onInterrupt) :=
          List.mem_filterMap.mpr ⟨n, h.sleeping ▸ hn, (Option.some_get hsome).symm⟩
        rw [hwoken] at hmem
        simpa using List.length_pos_of_mem hmem
      simp only [load, List.map_append, List.sum_append]
      omega
  · next hi => exact ⟨s, h, rfl, Nat.le_refl _, fun hi' => absurd hi' hi⟩

/-! ### What the worker does that goes on -/

variable {i : Item} {past : List (Exchange WorkerCall WorkerCall.Answer)} {c : WorkerCall}
  {k : c.Answer → Worker.Talk Outcome} {w : σ}

theorem Books.onward (h : Books env setting I items workers w₀ p s) (hw : env.Onward I p.world w) :
    Books env setting I items workers w₀ { p with world := w } s :=
  { h with
    world := h.world.trans hw
    okNow := fun x hx => (h.okNow x hx).mono hw
    okReady := fun x hx => (h.okReady x hx).mono hw
    okSleeping := fun x hx => (h.okSleeping x hx).mono hw
    okAtLock := fun x hx => (h.okAtLock x hx).mono hw
    okFinished := fun x hx => (h.okFinished x hx).mono hw }

/-- A worker hears an answer that has nothing to do with the lock, and goes on. -/
theorem Books.hear (h : Books env setting I items workers w₀ p s) (hn : s.now = [⟨i, past, .ask c k⟩]) {b : c.Answer}
    (hb : Heard env setting I p.world ⟨c, b⟩) (hc : ∀ v : Watch, (Worker.next v ⟨c, b⟩).held = v.held) :
    ∃ s', Books env setting I items workers w₀ p s' ∧ s'.now = [⟨i, past ++ [⟨c, b⟩], k b⟩] ∧ load p s' < load p s := by
  have hok : Hand.Ok env setting I p.world ⟨i, past, .ask c k⟩ := h.okNow _ (by simp [hn])
  have hnext : Hand.Next ⟨i, past, .ask c k⟩ ⟨i, past ++ [⟨c, b⟩], k b⟩ := Hand.next_of_held hc _
  refine ⟨{ s with now := [⟨i, past ++ [⟨c, b⟩], k b⟩] }, { h with okNow := ?_, items := ?_, permits := ?_, holders := ?_ },
    rfl, ?_⟩
  · exact List.forall_mem_singleton.mpr (hok.hear b (.refl h.world.kept) hb)
  · intro j
    have := h.items j
    simpa [hn] using this
  · have := h.permits
    simpa [hn] using this
  · have := h.holders
    simpa [hn, hnext.held] using this
  · have := hok.left_pos
    simp only [load, hn, Hand.left, List.map_cons, List.map_nil, List.length_append, List.length_singleton,
      List.sum_singleton]
    omega

theorem Books.takeLock {k : Unit → Worker.Talk Outcome} (h : Books env setting I items workers w₀ p s)
    (hn : s.now = [⟨i, past, .ask .lock k⟩]) (hl : p.locked = false) :
    ∃ s', Books env setting I items workers w₀ { p with locked := true } s' ∧
      s'.now = [⟨i, past ++ [⟨.lock, ()⟩], k ()⟩] ∧ load p s' < load p s := by
  have hok : Hand.Ok env setting I p.world ⟨i, past, .ask .lock k⟩ := h.okNow _ (by simp [hn])
  refine ⟨{ s with now := [⟨i, past ++ [⟨.lock, ()⟩], k ()⟩] },
    { h with okNow := ?_, items := ?_, permits := ?_, holders := ?_, queue := fun _ => rfl }, rfl, ?_⟩
  · exact List.forall_mem_singleton.mpr (hok.hear () (.refl h.world.kept) trivial)
  · intro j
    have := h.items j
    simpa [hn] using this
  · have := h.permits
    simpa [hn] using this
  · have := h.holders
    simp only [hl, Bool.false_eq_true, ↓reduceIte] at this
    simp only [List.countP_cons, List.countP_nil, Hand.held_lock, ↓reduceIte]
    omega
  · have := hok.left_pos
    simp only [load, hn, Hand.left, List.map_cons, List.map_nil, List.length_append, List.length_singleton,
      List.sum_singleton]
    omega

/-- A worker waits for the lock that another one holds. -/
theorem Books.awaitLock {k : Unit → Worker.Talk Outcome} (h : Books env setting I items workers w₀ p s)
    (hn : s.now = [⟨i, past, .ask .lock k⟩]) (hl : p.locked = true) :
    ∃ s', Books env setting I items workers w₀ { p with atLock := p.atLock ++ [k ()] } s' ∧
      s'.now = [] ∧ load p s' < load p s := by
  have hok : Hand.Ok env setting I p.world ⟨i, past, .ask .lock k⟩ := h.okNow _ (by simp [hn])
  have hfree : Hand.held ⟨i, past, .ask .lock k⟩ = false := hok.safe.1
  refine ⟨{ s with now := [], atLock := s.atLock ++ [⟨i, past ++ [⟨.lock, ()⟩], k ()⟩] },
    { h with atLock := ?_, okNow := List.forall_mem_nil _, okAtLock := ?_, items := ?_, permits := ?_, holders := ?_,
             queue := fun _ => hl, queued := ?_ }, rfl, ?_⟩
  · simp only [h.atLock, List.map_append, List.map_cons, List.map_nil]
  · refine List.forall_mem_append.mpr ⟨h.okAtLock, List.forall_mem_singleton.mpr ?_⟩
    exact hok.hear () (.refl h.world.kept) trivial
  · intro j
    have := h.items j
    simp only [hn, List.map_append, List.map_cons, List.map_nil, List.count_append, List.count_nil] at this ⊢
    omega
  · have := h.permits
    simp only [hn, List.length_append, List.length_cons, List.length_nil] at this ⊢
    omega
  · have := h.holders
    simpa [hn, hfree] using this
  · exact List.forall_mem_append.mpr ⟨h.queued, List.forall_mem_singleton.mpr (Hand.held_lock _)⟩
  · have := hok.left_pos
    simp only [load, hn, Hand.left, List.map_append, List.map_cons, List.map_nil, List.length_append,
      List.length_singleton, List.sum_append, List.sum_singleton, List.sum_nil]
    omega

/-- A worker gives the lock back, or on to the first one that waits for it. -/
theorem Books.giveBack {k : Unit → Worker.Talk Outcome} (h : Books env setting I items workers w₀ p s)
    (hn : s.now = [⟨i, past, .ask .unlock k⟩]) :
    (p.atLock = [] → ∃ s', Books env setting I items workers w₀ { p with locked := false } s' ∧
      s'.now = [⟨i, past ++ [⟨.unlock, ()⟩], k ()⟩] ∧ load p s' < load p s) ∧
    ∀ next rest, p.atLock = next :: rest → ∃ s',
      Books env setting I items workers w₀ { p with atLock := rest, ready := p.ready ++ [next] } s' ∧
      s'.now = [⟨i, past ++ [⟨.unlock, ()⟩], k ()⟩] ∧ load p s' < load p s := by
  have hok : Hand.Ok env setting I p.world ⟨i, past, .ask .unlock k⟩ := h.okNow _ (by simp [hn])
  have hheld : Hand.held ⟨i, past, .ask .unlock k⟩ = true := hok.safe.1
  have hok' := hok.hear () (.refl h.world.kept) trivial
  have hpos := hok.left_pos
  have hholders := h.holders
  simp only [hn, List.countP_cons, List.countP_nil, hheld, ↓reduceIte] at hholders
  have hlocked : p.locked = true := by
    cases hl : p.locked with
    | true => rfl
    | false =>
      simp only [hl, Bool.false_eq_true, ↓reduceIte] at hholders
      omega
  simp only [hlocked, ↓reduceIte] at hholders
  constructor
  · intro he
    refine ⟨{ s with now := [⟨i, past ++ [⟨.unlock, ()⟩], k ()⟩] },
      { h with okNow := ?_, items := ?_, permits := ?_, holders := ?_, queue := ?_ }, rfl, ?_⟩
    · exact List.forall_mem_singleton.mpr hok'
    · intro j
      have := h.items j
      simpa [hn] using this
    · have := h.permits
      simpa [hn] using this
    · simp only [List.countP_cons, List.countP_nil, Hand.held_unlock, Bool.false_eq_true, ↓reduceIte]
      omega
    · rw [h.atLock, List.map_eq_nil_iff] at he
      exact fun hne => absurd he hne
    · simp only [load, hn, Hand.left, List.map_cons, List.map_nil, List.length_append, List.length_singleton,
        List.sum_singleton]
      omega
  · intro next rest he
    rw [h.atLock, List.map_eq_cons_iff] at he
    obtain ⟨x, l, hx, rfl, rfl⟩ := he
    have hqueued := h.queued
    have hokq := h.okAtLock
    rw [hx, List.forall_mem_cons] at hqueued hokq
    refine ⟨{ s with now := [⟨i, past ++ [⟨.unlock, ()⟩], k ()⟩], atLock := l, ready := s.ready ++ [x] },
      { h with ready := ?_, atLock := rfl, okNow := ?_, okReady := ?_, okAtLock := hokq.2, items := ?_, permits := ?_,
               holders := ?_, queue := fun _ => hlocked, queued := hqueued.2 }, rfl, ?_⟩
    · simp only [h.ready, List.map_append, List.map_cons, List.map_nil]
    · exact List.forall_mem_singleton.mpr hok'
    · exact List.forall_mem_append.mpr ⟨h.okReady, List.forall_mem_singleton.mpr hokq.1⟩
    · intro j
      have := h.items j
      simp only [hn, hx, List.map_append, List.map_cons, List.map_nil, List.count_append, List.count_cons,
        List.count_nil] at this ⊢
      omega
    · have := h.permits
      simp only [hn, hx, List.length_append, List.length_cons, List.length_nil] at this ⊢
      omega
    · simp only [List.countP_append, List.countP_cons, List.countP_nil, Hand.held_unlock, hqueued.1, hlocked,
        Bool.false_eq_true, ↓reduceIte]
      omega
    · simp only [load, hn, hx, Hand.left, List.map_append, List.map_cons, List.map_nil, List.length_append,
        List.length_singleton, List.sum_append, List.sum_cons, List.sum_nil]
      omega

/-- A worker sleeps until it has its answer. -/
theorem Books.sleep (h : Books env setting I items workers w₀ p s) {x : Hand} (hn : s.now = [x]) {ms : Nat}
    {talk : Worker.Talk Outcome} {onInterrupt : Option (Worker.Talk Outcome)}
    (hx : Naps env setting I x ⟨env.elapsed p.world + ms, talk, onInterrupt⟩) :
    ∃ s', Books env setting I items workers w₀ (p.sleep env ms talk onInterrupt) s' ∧ s'.now = [] ∧
      load (p.sleep env ms talk onInterrupt) s' < load p s := by
  have hok : x.Ok env setting I p.world := h.okNow _ (by simp [hn])
  unfold Pool.sleep
  refine ⟨{ s with now := [], sleeping := s.sleeping ++ [(x, ⟨env.elapsed p.world + ms, talk, onInterrupt⟩)] },
    { h with sleeping := ?_, okNow := List.forall_mem_nil _, okSleeping := ?_, naps := ?_, items := ?_, permits := ?_,
             holders := ?_ }, rfl, ?_⟩
  · simp only [h.sleeping, List.map_append, List.map_cons, List.map_nil]
  · exact List.forall_mem_append.mpr ⟨h.okSleeping, List.forall_mem_singleton.mpr hok⟩
  · exact List.forall_mem_append.mpr ⟨h.naps, List.forall_mem_singleton.mpr hx⟩
  · intro j
    have := h.items j
    simp only [hn, List.map_append, List.map_cons, List.map_nil, List.count_append, List.count_nil] at this ⊢
    omega
  · have := h.permits
    simp only [hn, List.length_append, List.length_cons, List.length_nil] at this ⊢
    omega
  · have := h.holders
    simp only [hn, List.map_append, List.map_cons, List.map_nil, List.countP_append, List.countP_nil] at this ⊢
    omega
  · simp only [load, hn, List.map_append, List.map_cons, List.map_nil, List.sum_append, List.sum_singleton,
      List.sum_nil]
    omega

/-- A worker that is at its end takes the next item that waits, or is free. -/
theorem Books.leave (h : Books env setting I items workers w₀ p s) {o : Outcome}
    (hn : s.now = [⟨i, past, .done o⟩]) :
    (p.waiting = [] → ∃ s', Books env setting I items workers w₀
        { p with finished := p.finished ++ [o], free := p.free + 1 } s' ∧ s'.now = [] ∧ load p s' < load p s) ∧
    ∀ item rest, p.waiting = item :: rest → ∃ s', Books env setting I items workers w₀
        { p with finished := p.finished ++ [o], waiting := rest, ready := p.ready ++ [Worker.work setting item] } s' ∧
      s'.now = [] ∧ load { p with waiting := rest } s' < load p s := by
  have hok : Hand.Ok env setting I p.world ⟨i, past, .done o⟩ := h.okNow _ (by simp [hn])
  have hfree : Hand.held ⟨i, past, .done o⟩ = false := hok.returned.released
  have hfin : ∀ x ∈ s.finished ++ [⟨i, past, .done o⟩], x.Ok env setting I p.world :=
    List.forall_mem_append.mpr ⟨h.okFinished, List.forall_mem_singleton.mpr hok⟩
  have hmap : (p.finished ++ [o]).map Dialogue.done = (s.finished ++ [(⟨i, past, .done o⟩ : Hand)]).map (·.talk) := by
    simp only [List.map_append, h.finished, List.map_cons, List.map_nil]
  have hholders := h.holders
  simp only [hn, List.countP_cons, List.countP_nil, hfree] at hholders
  constructor
  · intro hw
    refine ⟨{ s with now := [], finished := s.finished ++ [⟨i, past, .done o⟩] },
      { h with finished := hmap, okNow := List.forall_mem_nil _, okFinished := hfin, items := ?_, permits := ?_,
               idle := fun hne => absurd hw hne, holders := ?_ }, rfl, ?_⟩
    · intro j
      have := h.items j
      simp only [hn, List.map_append, List.map_cons, List.map_nil, List.count_append, List.count_nil] at this ⊢
      omega
    · have := h.permits
      simp only [hn, List.length_cons, List.length_nil] at this ⊢
      omega
    · simpa using hholders
    · simp only [load, hn, List.map_cons, List.map_nil, List.sum_singleton, List.sum_nil]
      omega
  · intro item rest hw
    have hzero : p.free = 0 := h.idle (by simp [hw])
    refine ⟨{ s with now := [], ready := s.ready ++ [⟨item, [], Worker.work setting item⟩],
                     finished := s.finished ++ [⟨i, past, .done o⟩] },
      { h with ready := ?_, finished := hmap, okNow := List.forall_mem_nil _, okReady := ?_, okFinished := hfin,
               items := ?_, permits := ?_, idle := fun _ => hzero, holders := ?_ }, rfl, ?_⟩
    · simp only [h.ready, List.map_append, List.map_cons, List.map_nil]
    · exact List.forall_mem_append.mpr ⟨h.okReady, List.forall_mem_singleton.mpr (Hand.ok_begin _ _)⟩
    · intro j
      have := h.items j
      simp only [hn, hw, List.map_append, List.map_cons, List.map_nil, List.count_append, List.count_cons,
        List.count_nil] at this ⊢
      omega
    · have := h.permits
      simp only [hn, List.length_append, List.length_cons, List.length_nil] at this ⊢
      omega
    · simpa [Hand.held] using hholders
    · simp only [load, hn, hw, Hand.left, Worker.patience, List.map_append, List.map_cons, List.map_nil,
        List.length_cons, List.length_nil, List.sum_append, List.sum_singleton, List.sum_nil]
      omega

/-! ### Who goes on next -/

theorem Books.takeReady (h : Books env setting I items workers w₀ p s) (hn : s.now = []) {talk : Worker.Talk Outcome}
    {rest : List (Worker.Talk Outcome)} (hr : p.ready = talk :: rest) :
    ∃ s' x, Books env setting I items workers w₀ { p with ready := rest } s' ∧ s'.now = [x] ∧ x.talk = talk ∧
      load p s' = load p s := by
  rw [h.ready, List.map_eq_cons_iff] at hr
  obtain ⟨x, l, hx, rfl, rfl⟩ := hr
  have hok := h.okReady
  rw [hx, List.forall_mem_cons] at hok
  refine ⟨{ s with now := [x], ready := l }, x,
    { h with ready := rfl, okNow := List.forall_mem_singleton.mpr hok.1, okReady := hok.2, items := ?_, permits := ?_,
             holders := ?_ }, rfl, rfl, ?_⟩
  · intro j
    have := h.items j
    simp only [hn, hx, List.map_cons, List.map_nil, List.count_cons, List.count_nil] at this ⊢
    omega
  · have := h.permits
    simp only [hn, hx, List.length_cons, List.length_nil] at this ⊢
    omega
  · have := h.holders
    simp only [hn, hx, List.countP_cons, List.countP_nil] at this ⊢
    omega
  · simp only [load, hn, hx, List.map_cons, List.map_nil, List.sum_cons, List.sum_nil]
    omega

theorem Books.await (h : Books env setting I items workers w₀ p s) {item : Item} {rest : List Item}
    (he : p.entering = item :: rest) (hf : p.free = 0) :
    Books env setting I items workers w₀ { p with entering := rest, waiting := p.waiting ++ [item] } s ∧
      load { p with entering := rest, waiting := p.waiting ++ [item] } s < load p s := by
  refine ⟨{ h with items := ?_, idle := fun _ => hf }, ?_⟩
  · intro j
    have := h.items j
    simp only [he, List.count_cons, List.count_append, List.count_nil] at this ⊢
    omega
  · simp only [load, he, Worker.patience, List.length_append, List.length_cons, List.length_nil]
    omega

theorem Books.begin (h : Books env setting I items workers w₀ p s) (hn : s.now = []) {item : Item} {rest : List Item}
    (he : p.entering = item :: rest) {n : Nat} (hf : p.free = n + 1) :
    ∃ s', Books env setting I items workers w₀ { p with entering := rest, free := n } s' ∧
      s'.now = [⟨item, [], Worker.work setting item⟩] ∧ load { p with entering := rest } s' < load p s := by
  have hnone : p.waiting = [] := by
    by_cases hw : p.waiting = []
    · exact hw
    · have := h.idle hw
      omega
  refine ⟨{ s with now := [⟨item, [], Worker.work setting item⟩] },
    { h with okNow := List.forall_mem_singleton.mpr (Hand.ok_begin _ _), items := ?_, permits := ?_,
             idle := fun hw => absurd hnone hw, holders := ?_ }, rfl, ?_⟩
  · intro j
    have := h.items j
    simp only [hn, he, List.map_cons, List.map_nil, List.count_cons, List.count_nil] at this ⊢
    omega
  · have := h.permits
    simp only [hn, hf, List.length_cons, List.length_nil] at this ⊢
    omega
  · have := h.holders
    simpa [hn, Hand.held] using this
  · simp only [load, hn, he, Hand.left, Worker.patience, List.map_cons, List.map_nil, List.length_cons,
      List.length_nil, List.sum_singleton, List.sum_nil]
    omega

theorem Books.wakeOne (h : Books env setting I items workers w₀ p s) (hr : p.ready = []) {t : Sleeper}
    {pre post : List Sleeper} (hs : p.sleeping = pre ++ t :: post) :
    ∃ s', Books env setting I items workers w₀ { p with sleeping := pre ++ post, ready := [t.talk] } s' ∧
      s'.now = s.now ∧ load p s' < load p s := by
  rw [h.sleeping, List.map_eq_append_iff] at hs
  obtain ⟨l₁, l₂, hl, rfl, hl₂⟩ := hs
  rw [List.map_eq_cons_iff] at hl₂
  obtain ⟨n, l₃, rfl, rfl, rfl⟩ := hl₂
  have hready : s.ready = [] := by rw [← List.map_eq_nil_iff (f := (·.talk)), ← h.ready, hr]
  have hok := h.okSleeping
  have hnaps := h.naps
  rw [hl, List.forall_mem_append, List.forall_mem_cons] at hok hnaps
  obtain ⟨x, hx, hnext, hxok⟩ := hnaps.2.1.wake hok.2.1 h.world.kept
  refine ⟨{ s with sleeping := l₁ ++ l₃, ready := [x] },
    { h with ready := ?_, sleeping := ?_, okReady := List.forall_mem_singleton.mpr hxok,
             okSleeping := List.forall_mem_append.mpr ⟨hok.1, hok.2.2⟩,
             naps := List.forall_mem_append.mpr ⟨hnaps.1, hnaps.2.2⟩, items := ?_, permits := ?_, holders := ?_ },
    rfl, ?_⟩
  · simp only [List.map_cons, List.map_nil, hx]
  · simp only [List.map_append]
  · intro j
    have := h.items j
    simp only [hl, hready, hnext.item, List.map_append, List.map_cons, List.map_nil, List.count_append,
      List.count_cons, List.count_nil] at this ⊢
    omega
  · have := h.permits
    simp only [hl, hready, List.length_append, List.length_cons, List.length_nil] at this ⊢
    omega
  · have := h.holders
    simp only [hl, hready, hnext.held, List.map_append, List.map_cons, List.countP_append, List.countP_cons,
      List.countP_nil] at this ⊢
    omega
  · have := hnaps.2.1.left_pos hok.2.1
    have := hnext.length
    simp only [load, hl, hready, Hand.left, List.map_append, List.map_cons, List.map_nil, List.sum_append,
      List.sum_cons, List.sum_nil]
    omega

end Pool

end WorkWaves
