import WorkWaves.Proofs.Run.Books

/-!
# What a pool leaves

A worker goes on until it has to wait (`advance_books`), and a pool until nobody has anything left to do
(`drive_books`). Then every item has its outcome, and its worker came to that by answers that the surroundings
gave: `Ran`.
-/

namespace WorkWaves

open Dialogue

namespace Pool

variable {σ : Type} {env : Surroundings σ} {setting : Worker.Setting} {I : σ → Prop} {items : List Item}
  {workers : Nat} {w₀ : σ} {p : Pool σ} {s : Staff} {i : Item}
  {past : List (Exchange WorkerCall WorkerCall.Answer)}

theorem finish_books (h : Books env setting I items workers w₀ p s) {o : Outcome}
    (hn : s.now = [⟨i, past, .done o⟩]) :
    ∃ s', Books env setting I items workers w₀ (p.finish env setting o) s' ∧ s'.now = [] ∧
      load (p.finish env setting o) s' < load p s := by
  obtain ⟨s₁, h₁, hn₁, hl₁, -⟩ := h.rouse
  obtain ⟨hnil, hcons⟩ := h₁.leave (hn₁.trans hn)
  unfold finish
  dsimp only
  split
  · next hw =>
    obtain ⟨s', h', hn', hl'⟩ := hnil hw
    exact ⟨s', h', hn', Nat.lt_of_lt_of_le hl' hl₁⟩
  · next item rest hw =>
    obtain ⟨s', h', hn', hl'⟩ := hcons item rest hw
    exact ⟨s', h', hn', Nat.lt_of_lt_of_le hl' hl₁⟩

theorem advance_books (henv : env.Steady I) {talk : Worker.Talk Outcome}
    (h : Books env setting I items workers w₀ p s) (hn : s.now = [⟨i, past, talk⟩]) :
    ∃ s', Books env setting I items workers w₀ (advance env setting talk p) s' ∧ s'.now = [] ∧
      load (advance env setting talk p) s' < load p s := by
  induction talk generalizing p s past with
  | done o => exact finish_books h hn
  | ask c k ih =>
    cases c with
    | interrupted =>
      obtain ⟨s₁, h₁, hn₁, hl₁⟩ := h.hear hn (b := env.interrupted p.world) ⟨⟨_, h.world.kept, rfl⟩, id⟩ fun _ => rfl
      obtain ⟨s', h', hn', hl'⟩ := ih _ h₁ hn₁
      exact ⟨s', h', hn', Nat.lt_trans hl' hl₁⟩
    | time =>
      obtain ⟨s₁, h₁, hn₁, hl₁⟩ := h.hear hn (b := env.elapsed p.world) ⟨_, h.world.kept, rfl⟩ fun _ => rfl
      obtain ⟨s', h', hn', hl'⟩ := ih _ h₁ hn₁
      exact ⟨s', h', hn', Nat.lt_trans hl' hl₁⟩
    | tell e =>
      obtain ⟨s₁, h₁, hn₁, hl₁⟩ := (h.onward (henv.tell e _ h.world.kept)).hear hn (b := ()) trivial fun _ => rfl
      obtain ⟨s', h', hn', hl'⟩ := ih _ h₁ hn₁
      exact ⟨s', h', hn', Nat.lt_trans hl' hl₁⟩
    | write r =>
      obtain ⟨s₁, h₁, hn₁, hl₁⟩ := (h.onward (henv.write r _ h.world.kept)).hear hn (b := ()) trivial fun _ => rfl
      obtain ⟨s', h', hn', hl'⟩ := ih _ h₁ hn₁
      exact ⟨s', h', hn', Nat.lt_trans hl' hl₁⟩
    | lock =>
      unfold advance
      split
      · next hl => exact h.awaitLock hn hl
      · next hl =>
        obtain ⟨s₁, h₁, hn₁, hl₁⟩ := h.takeLock hn (Bool.eq_false_iff.mpr hl)
        obtain ⟨s', h', hn', hl'⟩ := ih _ h₁ hn₁
        exact ⟨s', h', hn', Nat.lt_trans hl' hl₁⟩
    | unlock =>
      obtain ⟨s₀, h₀, hn₀, hl₀, -⟩ := h.rouse
      obtain ⟨hnil, hcons⟩ := h₀.giveBack (hn₀.trans hn)
      unfold advance
      dsimp only
      split
      · next hq =>
        obtain ⟨s₁, h₁, hn₁, hl₁⟩ := hnil hq
        obtain ⟨s', h', hn', hl'⟩ := ih _ h₁ hn₁
        exact ⟨s', h', hn', Nat.lt_of_lt_of_le (Nat.lt_trans hl' hl₁) hl₀⟩
      · next x rest hq =>
        obtain ⟨s₁, h₁, hn₁, hl₁⟩ := hcons x rest hq
        obtain ⟨s', h', hn', hl'⟩ := ih _ h₁ hn₁
        exact ⟨s', h', hn', Nat.lt_of_lt_of_le (Nat.lt_trans hl' hl₁) hl₀⟩
    | fix r =>
      have hw := henv.fix r p.world h.world.kept
      have h₀ := h.onward hw
      unfold advance
      dsimp only
      split
      · obtain ⟨s₁, h₁, hn₁, hl₁⟩ := h₀.hear hn (b := fixEnd _ _) (.inl ⟨_, h.world.kept, rfl⟩) fun _ => rfl
        obtain ⟨s', h', hn', hl'⟩ := ih _ h₁ hn₁
        exact ⟨s', h', hn', Nat.lt_trans hl' hl₁⟩
      · split
        · next hi =>
          obtain ⟨s₁, h₁, hn₁, hl₁⟩ := h₀.hear hn (b := .interrupted) (.inr ⟨rfl, hw.stays hi⟩) fun _ => rfl
          obtain ⟨s', h', hn', hl'⟩ := ih _ h₁ hn₁
          exact ⟨s', h', hn', Nat.lt_trans hl' hl₁⟩
        · exact h₀.sleep hn (.fix h.world.kept)
    | errand e =>
      have h₀ := h.onward (henv.errand e p.world h.world.kept)
      unfold advance
      dsimp only
      split
      · obtain ⟨s₁, h₁, hn₁, hl₁⟩ := h₀.hear hn (b := (env.errand e p.world).1.answer) ⟨_, h.world.kept, rfl⟩ fun _ => rfl
        obtain ⟨s', h', hn', hl'⟩ := ih _ h₁ hn₁
        exact ⟨s', h', hn', Nat.lt_trans hl' hl₁⟩
      · exact h₀.sleep hn (.errand h.world.kept)

/-! ### Until nobody has anything left to do -/

theorem firstToWake_eq_some {l : List Sleeper} {t : Sleeper} {others : List Sleeper}
    (h : firstToWake l = some (t, others)) : ∃ pre post, l = pre ++ t :: post ∧ others = pre ++ post := by
  induction l generalizing t others with
  | nil => cases h
  | cons x l ih =>
    unfold firstToWake at h
    split at h
    · next hn =>
      cases h
      match l with
      | [] => exact ⟨[], [], rfl, rfl⟩
      | y :: l =>
        unfold firstToWake at hn
        split at hn
        · cases hn
        · split at hn <;> cases hn
    · next y rest hs =>
      split at h
      · cases h
        obtain ⟨pre, post, rfl, rfl⟩ := ih hs
        exact ⟨x :: pre, post, rfl, rfl⟩
      · cases h
        exact ⟨[], l, rfl, rfl⟩

theorem eq_nil_of_firstToWake {l : List Sleeper} (h : firstToWake l = none) : l = [] := by
  match l with
  | [] => rfl
  | x :: l =>
    unfold firstToWake at h
    split at h
    · cases h
    · split at h <;> cases h

/-- An interrupt is there that wakes somebody. -/
def Stirs (env : Surroundings σ) (p : Pool σ) : Prop :=
  env.interrupted p.world = true ∧ ∃ t ∈ p.sleeping, t.onInterrupt.isSome = true

theorem enter_books (henv : env.Steady I) (h : Books env setting I items workers w₀ p s) (hn : s.now = [])
    {rest : List Item} (he : p.entering = i :: rest) :
    ∃ s', Books env setting I items workers w₀ (enter env setting i { p with entering := rest }) s' ∧ s'.now = [] ∧
      load (enter env setting i { p with entering := rest }) s' < load p s := by
  unfold enter
  split
  · next hf =>
    obtain ⟨h', hl⟩ := h.await he hf
    exact ⟨s, h', hn, hl⟩
  · next n hf =>
    obtain ⟨s₁, h₁, hn₁, hl₁⟩ := h.begin hn he hf
    obtain ⟨s', h', hn', hl'⟩ := advance_books henv h₁ hn₁
    exact ⟨s', h', hn', Nat.lt_trans hl' hl₁⟩

theorem wake_books (henv : env.Steady I) (h : Books env setting I items workers w₀ p s) (hr : p.ready = [])
    {t : Sleeper} {others : List Sleeper} (ht : firstToWake p.sleeping = some (t, others)) :
    ∃ s', Books env setting I items workers w₀ (p.wake env t others) s' ∧ s'.now = s.now ∧
      (load (p.wake env t others) s' < load p s ∨
        load (p.wake env t others) s' = load p s ∧ Stirs env (p.wake env t others)) := by
  obtain ⟨pre, post, hs, rfl⟩ := firstToWake_eq_some ht
  have hw := henv.pass t.wakeAt p.world h.world.kept
  unfold wake
  dsimp only
  split
  · next hi =>
    simp only [Bool.and_eq_true, List.any_eq_true] at hi
    obtain ⟨hi, u, hu, hsome⟩ := hi
    refine ⟨s, h.onward hw, rfl, .inr ⟨rfl, hi, u, ?_, hsome⟩⟩
    show u ∈ p.sleeping
    rw [hs]
    rcases List.mem_cons.mp hu with rfl | hu
    · simp
    · rcases List.mem_append.mp hu with hu | hu <;> simp [hu]
  · obtain ⟨s', h', hn', hl'⟩ :=
      ((h.onward hw).onward (henv.pass t.wakeAt _ hw.kept)).wakeOne hr hs
    exact ⟨s', h', hn', .inl hl'⟩

/-- A pool with enough steps comes to an end. -/
theorem drive_books (henv : env.Steady I) {n : Nat} (h : Books env setting I items workers w₀ p s) (hn : s.now = [])
    (hl : load p s < n ∨ load p s ≤ n ∧ Stirs env p) :
    ∃ s', Books env setting I items workers w₀ (drive env setting n p) s' ∧ s'.now = [] ∧
      (drive env setting n p).entering = [] ∧ (drive env setting n p).ready = [] ∧
      (drive env setting n p).sleeping = [] := by
  induction n generalizing p s with
  | zero =>
    rcases hl with hl | ⟨hl, -, t, ht, -⟩
    · exact absurd hl (Nat.not_lt_zero _)
    · -- Nobody can sleep without anything left to do.
      rw [h.sleeping] at ht
      obtain ⟨x, hx, -⟩ := List.mem_map.mp ht
      have hpos := (h.naps x hx).left_pos (h.okSleeping x hx)
      have hsum : 0 < (s.sleeping.map fun n => 2 * n.1.left).sum := by
        refine List.sum_pos_iff_exists_pos_nat.mpr ⟨_, List.mem_map_of_mem hx, ?_⟩
        simp only [Hand.left]
        omega
      simp only [load] at hl
      omega
  | succ n ih =>
    obtain ⟨s₁, h₁, hn₁, hl₁, hlt⟩ := h.rouse
    have hle : load (p.rouse env) s₁ ≤ n := by
      rcases hl with hl | ⟨hl, hi, ht⟩
      · omega
      · have := hlt hi ht
        omega
    replace hn₁ := hn₁.trans hn
    unfold drive
    dsimp only
    split
    · next item rest _ he =>
      obtain ⟨s₂, h₂, hn₂, hl₂⟩ := enter_books henv h₁ hn₁ he
      exact ih h₂ hn₂ (.inl (by omega))
    · next talk rest he hr =>
      obtain ⟨s₂, x, h₂, hn₂, rfl, hl₂⟩ := h₁.takeReady hn₁ hr
      obtain ⟨s₃, h₃, hn₃, hl₃⟩ := advance_books henv h₂ hn₂
      exact ih h₃ hn₃ (.inl (Nat.lt_of_lt_of_le (Nat.lt_of_lt_of_eq hl₃ hl₂) hle))
    · next he hr =>
      split
      · next t others ht =>
        obtain ⟨s₂, h₂, hn₂, hl₂⟩ := wake_books henv h₁ hr ht
        refine ih h₂ (hn₂.trans hn₁) (hl₂.imp (fun hl₂ => ?_) fun hl₂ => ⟨?_, hl₂.2⟩)
        · omega
        · omega
      · next ht => exact ⟨s₁, h₁, hn₁, he, hr, eq_nil_of_firstToWake ht⟩

/-- When nobody can go on any more, nobody waits for the lock. -/
theorem Books.atLock_eq_nil (h : Books env setting I items workers w₀ p s) (hn : s.now = []) (hr : p.ready = [])
    (hs : p.sleeping = []) : s.atLock = [] := by
  have hready : s.ready = [] := by simpa [hr] using h.ready
  have hsleeping : s.sleeping = [] := by simpa [hs] using h.sleeping
  have hholders := h.holders
  by_cases hq : s.atLock = []
  · exact hq
  · simp [hn, hready, hsleeping, h.queue hq] at hholders

/-- Then nobody waits for a worker either, so every item is done with. -/
theorem Books.over (h : Books env setting I items workers w₀ p s) (hn : s.now = []) (he : p.entering = [])
    (hr : p.ready = []) (hs : p.sleeping = []) (hw : 0 < workers) : (s.finished.map (·.item)).Perm items := by
  have hready : s.ready = [] := by simpa [hr] using h.ready
  have hsleeping : s.sleeping = [] := by simpa [hs] using h.sleeping
  have hatLock := h.atLock_eq_nil hn hr hs
  have hwaiting : p.waiting = [] := by
    have hpermits := h.permits
    by_cases hq : p.waiting = []
    · exact hq
    · simp only [hn, hready, hsleeping, hatLock, h.idle hq, List.length_nil] at hpermits
      omega
  refine List.perm_iff_count.mpr fun j => ?_
  have hitems := h.items j
  simpa [hn, he, hwaiting, hready, hsleeping, hatLock] using hitems

variable (env setting I) in
/-- A worker can have come to an outcome for an item before the world was `w`. -/
def Came (w : σ) (i : Item) (o : Outcome) : Prop :=
  ∃ past, Leads (Worker.work setting i) past (.done o) ∧ ∀ x ∈ past, Heard env setting I w x

/-- An outcome is what a worker may return, and one that speaks of an interrupt tells the truth. -/
theorem Came.returned {w : σ} {o : Outcome} (h : Came env setting I w i o) :
    ∃ v, Worker.Returned setting i v o ∧ (v.stopped = true → env.interrupted w = true) := by
  obtain ⟨past, hl, hp⟩ := h
  exact ⟨_, (Worker.work_safe setting i).leads hl, interrupted_of_stopped hp (by simp)⟩

/-- Without an interrupt, a worker starts and ends the item. -/
theorem Came.started {w : σ} {o : Outcome} (h : Came env setting I w i o) (hi : env.interrupted w ≠ true) :
    o.started = true ∧ o.status.isTerminal = true := by
  obtain ⟨v, hv, hstop⟩ := h.returned
  cases hs : o.started with
  | false => exact absurd (hstop (hv.notStarted hs).2) hi
  | true => exact ⟨rfl, (hv.started hs).isTerminal⟩

variable (env setting I) in
/-- Some items were worked on in a world, which led to outcomes and another world. -/
structure Ran (items : List Item) (w : σ) (r : List Outcome × σ) : Prop where
  world : env.Onward I w r.2
  /-- The items in the order in which they ended, with their outcomes. -/
  ends : ∃ l : List (Item × Outcome), r.1 = l.map (·.2) ∧ (l.map (·.1)).Perm items ∧
    ∀ e ∈ l, Came env setting I r.2 e.1 e.2

theorem Ran.itemIds {w : σ} {r : List Outcome × σ} (h : Ran env setting I items w r) :
    (r.1.map (·.itemId)).Perm (items.map (·.id)) := by
  obtain ⟨-, l, hos, hitems, hcame⟩ := h
  have hids : r.1.map (·.itemId) = (l.map (·.1)).map (·.id) := by
    rw [hos, List.map_map, List.map_map]
    refine List.map_congr_left fun e he => ?_
    obtain ⟨v, hv, -⟩ := (hcame e he).returned
    exact hv.itemId
  exact hids ▸ hitems.map (·.id)

theorem Ran.returned {w : σ} {r : List Outcome × σ} (h : Ran env setting I items w r) :
    ∀ o ∈ r.1, ∃ i v, Worker.Returned setting i v o := fun o ho => by
  obtain ⟨-, l, hos, -, hcame⟩ := h
  obtain ⟨e, he, rfl⟩ := List.mem_map.mp (hos ▸ ho)
  obtain ⟨v, hv, -⟩ := (hcame e he).returned
  exact ⟨_, v, hv⟩

theorem exists_ends {w : σ} {l : List Hand} {os : List Outcome} (h : os.map Dialogue.done = l.map (·.talk))
    (hok : ∀ x ∈ l, x.Ok env setting I w) : ∃ e : List (Item × Outcome), os = e.map (·.2) ∧
      l.map (·.item) = e.map (·.1) ∧ ∀ x ∈ e, Came env setting I w x.1 x.2 := by
  induction l generalizing os with
  | nil => exact ⟨[], by simpa using h, rfl, by simp⟩
  | cons x l ih =>
    match os, h with
    | o :: os, h =>
      obtain ⟨ho, hos⟩ := List.cons.inj h
      obtain ⟨e, rfl, hitems, hcame⟩ := ih hos fun y hy => hok y (List.mem_cons_of_mem x hy)
      have hx := hok x (List.mem_cons_self ..)
      refine ⟨(x.item, o) :: e, rfl, by rw [List.map_cons, List.map_cons, hitems], ?_⟩
      exact List.forall_mem_cons.mpr ⟨⟨x.past, ho ▸ hx.leads, hx.heard⟩, hcame⟩

theorem start_books {w : σ} (hw : I w) :
    Books env setting I items workers w (start workers items w) {} where
  world := .refl hw
  ready := rfl
  sleeping := rfl
  atLock := rfl
  finished := rfl
  okNow := by simp
  okReady := by simp
  okSleeping := by simp
  okAtLock := by simp
  okFinished := by simp
  naps := by simp
  items := by simp [start]
  permits := rfl
  idle := by simp [start]
  holders := rfl
  queue := by simp
  queued := by simp

variable (setting) in
/-- A pool that is given some items comes to an end in which nobody has anything left to do. -/
theorem drive_start_books (henv : env.Steady I) (workers : Nat) (items : List Item) {w : σ} (hw : I w) :
    ∃ s, Books env setting I items workers w (drive env setting (steps items.length) (start workers items w)) s ∧
      s.now = [] ∧ (drive env setting (steps items.length) (start workers items w)).entering = [] ∧
      (drive env setting (steps items.length) (start workers items w)).ready = [] ∧
      (drive env setting (steps items.length) (start workers items w)).sleeping = [] := by
  have hl : load (start workers items w) {} < steps items.length := by
    simp only [load, start, steps, Worker.patience, List.map_nil, List.sum_nil, List.length_nil]
    omega
  exact drive_books henv (start_books hw) rfl (.inl hl)

variable (setting) in
theorem run_ran (henv : env.Steady I) (items : List Item) {w : σ} (hw : I w) :
    Ran env setting I items w (run env setting items w) := by
  obtain ⟨s, h, hn, he, hr, hs⟩ := drive_start_books setting henv (setting.limits.workersFor items.length) items hw
  have hperm := h.over hn he hr hs (by unfold RunLimits.workersFor; omega)
  obtain ⟨l, hos, hitems, hcame⟩ := exists_ends h.finished h.okFinished
  exact ⟨h.world, l, hos, hitems ▸ hperm, hcame⟩

end Pool

end WorkWaves
