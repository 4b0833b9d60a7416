import WorkWaves.Proofs.Run.Diary

/-!
# What the workers of a pool tell

A worker tells that its item begins and how it ends, or nothing if it does not begin (`work_tells`). The workers of a
pool tell this while others go on, so what is told of a pool is their tellings one in another (`Interleaved`), and of
these none is cut off or told twice (`exists_told_of_run`). `Voiced` is the invariant; it is about a `Crew`, in which
each worker keeps what it told so far. What is told is read off the world, in which telling must be heard (`Hears`).
-/

namespace WorkWaves

open Dialogue

/-! ### Lists in one another -/

/-- A list is put together from others one by one, each in its order. -/
inductive Interleaved {α : Type} : List (List α) → List α → Prop
  | nil : Interleaved [] []
  | silent {ls : List (List α)} {l : List α} (h : Interleaved ls l) : Interleaved ([] :: ls) l
  | snoc {ls : List (List α)} {s l : List α} (a : α) (h : Interleaved (s :: ls) l) :
      Interleaved ((s ++ [a]) :: ls) (l ++ [a])
  | perm {ls ls' : List (List α)} {l : List α} (hp : ls.Perm ls') (h : Interleaved ls l) : Interleaved ls' l

theorem Interleaved.flatten_perm {α : Type} {ls : List (List α)} {l : List α} (h : Interleaved ls l) :
    ls.flatten.Perm l := by
  induction h with
  | nil => exact .refl _
  | silent _ ih => exact ih
  | @snoc ls s l a _ ih =>
    rw [List.flatten_cons, List.append_assoc]
    exact (List.perm_append_comm.append_left s).trans (by
      rw [← List.append_assoc]
      exact ih.append_right [a])
  | perm hp _ ih => exact hp.flatten.symm.trans ih

/-! ### What one worker tells -/

/-- What a worker told, of all that it asked and heard. -/
def tellings (past : List (Exchange WorkerCall WorkerCall.Answer)) : List Event :=
  past.filterMap fun
    | ⟨.tell e, _⟩ => some e
    | _ => none

/-- What is told of an item by its worker. -/
def Outcome.tellings (wave : Nat) (o : Outcome) : List Event :=
  if o.started then [.itemStart o.itemId wave, .itemEnd o] else []

theorem tellings_append (h h' : List (Exchange WorkerCall WorkerCall.Answer)) :
    tellings (h ++ h') = tellings h ++ tellings h' := List.filterMap_append

namespace Worker

/-- Nothing is told, whatever the answers are. -/
abbrev Silent {α : Type} (d : Talk α) : Prop :=
  Safe (κ := Unit) (fun _ c => ∀ e, c ≠ .tell e) (fun _ _ => ()) (fun _ _ => True) () d

theorem within_silent {α : Type} (w : Workspace) (d : Merge.Talk α) : Silent (d.within (mergeCall w)) := by
  refine (Safe.all (fun _ _ => ()) () d).within fun _ c _ => ?_
  cases c <;> exact ⟨by simp, fun _ => rfl⟩

theorem record_silent (s : Setting) (item : Item) (w : Workspace) : Silent (record s item w) := by
  refine ⟨by simp, ?_⟩
  rintro (e | (_ | _))
  · trivial
  · trivial
  · exact (within_silent w (Merge.integrate s.exclusions w _)).andThen fun _ _ _ => trivial

theorem fixAndRecord_silent (s : Setting) (item : Item) (w : Workspace) : Silent (fixAndRecord s item w) := by
  refine ⟨by simp, ?_⟩
  rintro (r | e | _ | _)
  · exact Safe.ite (fun _ => record_silent s item w) fun _ => trivial
  · trivial
  · trivial
  · trivial

theorem execute_silent (s : Setting) (item : Item) : Silent (execute s item) := by
  refine ⟨by simp, ?_⟩
  rintro (e | w)
  · trivial
  · refine ⟨by simp, fun _ => (fixAndRecord_silent s item w).andThen fun _ e _ => ?_⟩
    refine Safe.ite (fun _ => ⟨by simp, fun _ => trivial⟩) fun _ => ⟨by simp, ?_⟩
    rintro (e' | ⟨⟩)
    · exact ⟨by simp, fun _ => trivial⟩
    · trivial

theorem Silent.wholly {α : Type} {d : Talk α} (h : Silent d) : Wholly (fun h _ => tellings h = []) d := by
  induction d with
  | done a => rfl
  | ask c k ih =>
    intro r
    have hnone : ∀ t, tellings (⟨c, r⟩ :: t) = tellings t := fun t => by
      cases c with
      | tell e => exact absurd rfl (h.1 e)
      | interrupted | time | write _ | lock | unlock | fix _ | errand _ => rfl
    exact (ih r (h.2 r)).mono fun t _ ht => (hnone t).trans ht

/-- A worker that begins tells so first, and in the end how its item ended. -/
theorem work_tells (s : Setting) (item : Item) :
    Wholly (fun h o => tellings h = o.tellings s.waveIndex) (work s item) := by
  rintro (_ | _)
  · refine fun start _ => (execute_silent s item).wholly.andThen fun h e hh stop _ _ => ?_
    show .itemStart item.id s.waveIndex :: tellings (h ++ _) = _
    rw [tellings_append, hh]
    rfl
  · rfl

end Worker

/-! ### What a pool tells -/

/-- Everything that is told is heard in the world, and nothing else is. -/
structure Surroundings.Hears {σ : Type} (env : Surroundings σ) (told : σ → List Event) : Prop where
  tell : ∀ e w, told (env.tell e w) = told w ++ [e]
  errand : ∀ e w, told (env.errand e w).2 = told w
  fix : ∀ r w, told (env.fix r w).2 = told w
  write : ∀ r w, told (env.write r w) = told w
  save : ∀ s w, told (env.save s w).2 = told w
  pass : ∀ t w, told (env.pass t w) = told w

namespace Pool

variable {σ : Type} {env : Surroundings σ} {setting : Worker.Setting} {told : σ → List Event} {before : List Event}
  {now : List (List Event)}

def Hand.tellings (h : Hand) : List Event := WorkWaves.tellings h.past

namespace Crew

variable {p q : Crew σ} {i : Item} {past : List (Exchange WorkerCall WorkerCall.Answer)}

/-- What each worker told so far. -/
def tellings (p : Crew σ) : List (List Event) :=
  p.ready.map Hand.tellings ++ (p.sleeping.map (·.hand.tellings) ++
    (p.atLock.map Hand.tellings ++ p.finished.map fun d => WorkWaves.tellings d.past))

/-- What was told since `before` is what each worker told so far, the ones that go on `now` among them. -/
structure Voiced (told : σ → List Event) (before : List Event) (now : List (List Event)) (p : Crew σ) : Prop where
  heard : ∃ l, told p.world = before ++ l ∧ Interleaved (now ++ p.tellings) l
  naps : ∀ n ∈ p.sleeping, ∀ h ∈ n.onInterrupt, h.tellings = n.hand.tellings

theorem tellings_onInterrupt {l : List Nap} (h : ∀ n ∈ l, ∀ x ∈ n.onInterrupt, x.tellings = n.hand.tellings) :
    (l.map (·.hand.tellings)).Perm ((l.filterMap (·.onInterrupt)).map Hand.tellings ++
      (l.filter (·.onInterrupt.isNone)).map (·.hand.tellings)) := by
  induction l with
  | nil => exact .refl _
  | cons n l ih =>
    obtain ⟨hn, hl⟩ := List.forall_mem_cons.mp h
    cases ho : n.onInterrupt with
    | none =>
      rw [List.filterMap_cons_none ho, List.filter_cons_of_pos (by simp [ho])]
      exact ((ih hl).cons _).trans List.perm_middle.symm
    | some x =>
      rw [List.filterMap_cons_some ho, List.filter_cons_of_neg (by simp [ho]), List.map_cons, List.map_cons,
        hn x (by simp [ho])]
      exact (ih hl).cons _

namespace Voiced

/-- Nothing was told, and the workers went to other places. -/
theorem move {now' : List (List Event)} (h : Voiced told before now p) (hw : told q.world = told p.world)
    (ht : (now ++ p.tellings).Perm (now' ++ q.tellings))
    (hn : ∀ n ∈ q.sleeping, n ∈ p.sleeping ∨ ∀ h ∈ n.onInterrupt, h.tellings = n.hand.tellings) :
    Voiced told before now' q := by
  obtain ⟨l, hl, hi⟩ := h.heard
  exact ⟨⟨l, hw.trans hl, .perm ht hi⟩, fun n hq => (hn n hq).elim (h.naps n) id⟩

variable (env) in
theorem rouse (h : Voiced told before now p) : Voiced told before now (p.rouse env) := by
  unfold Crew.rouse
  split
  · refine h.move rfl (List.Perm.append_left _ ?_) fun n hn => .inl (List.mem_filter.mp hn).1
    simp only [tellings, List.map_append, List.append_assoc]
    refine List.Perm.append_left _ ?_
    simpa only [List.append_assoc] using (tellings_onInterrupt h.naps).append_right _
  · exact h

/-- A worker that told nothing yet begins. -/
theorem begin (h : Voiced told before now p) : Voiced told before ([] :: now) p := by
  obtain ⟨l, hl, hi⟩ := h.heard
  exact ⟨⟨l, hl, .silent hi⟩, h.naps⟩

theorem hear {c : WorkerCall} (h : Voiced told before [WorkWaves.tellings past] p) (hc : ∀ e, c ≠ .tell e)
    (a : c.Answer) {w : σ} (hw : told w = told p.world) :
    Voiced told before [WorkWaves.tellings (past ++ [⟨c, a⟩])] { p with world := w } := by
  have hnone : WorkWaves.tellings (past ++ [⟨c, a⟩]) = WorkWaves.tellings past := by
    rw [tellings_append]
    cases c with
    | tell e => exact absurd rfl (hc e)
    | interrupted | time | write _ | lock | unlock | fix _ | errand _ => exact List.append_nil _
  rw [hnone]
  exact h.move hw (.refl _) fun n hn => .inl hn

theorem tell (h : Voiced told before [WorkWaves.tellings past] p) {e : Event} {w : σ}
    (hw : told w = told p.world ++ [e]) :
    Voiced told before [WorkWaves.tellings (past ++ [⟨.tell e, ()⟩])] { p with world := w } := by
  obtain ⟨l, hl, hi⟩ := h.heard
  refine ⟨⟨l ++ [e], ?_, ?_⟩, h.naps⟩
  · exact hw.trans (by rw [hl, List.append_assoc])
  · rw [tellings_append]
    exact .snoc e hi

theorem finish {d : Diary} (h : Voiced told before [WorkWaves.tellings d.past] p) :
    Voiced told before [] (p.finish env setting d) := by
  classical
  have hr := h.rouse env
  unfold Crew.finish
  dsimp only
  split
  · refine hr.move rfl (List.perm_iff_count.mpr fun t => ?_) fun n hn => .inl hn
    simp only [tellings, List.map_append, List.map_cons, List.map_nil, List.count_append, List.count_nil]
    omega
  · refine hr.begin.move rfl (List.perm_iff_count.mpr fun t => ?_) fun n hn => .inl hn
    simp only [tellings, List.map_append, List.map_cons, List.map_nil, List.count_append, List.count_cons,
      List.count_nil, Hand.tellings, WorkWaves.tellings, List.filterMap_nil]
    omega

theorem sleep {hand : Hand} {onInterrupt : Option Hand} (h : Voiced told before [hand.tellings] p) {ms : Nat}
    (ho : ∀ x ∈ onInterrupt, x.tellings = hand.tellings) :
    Voiced told before [] (p.sleep env ms hand onInterrupt) := by
  classical
  refine h.move rfl (List.perm_iff_count.mpr fun t => ?_) fun n hn => ?_
  · simp only [Crew.sleep, tellings, List.map_append, List.map_cons, List.map_nil, List.count_append, List.count_nil]
    omega
  · rcases List.mem_append.mp hn with hn | hn
    · exact .inl hn
    · rw [List.mem_singleton.mp hn]
      exact .inr ho

theorem advance (henv : env.Hears told) {talk : Worker.Talk Outcome}
    (h : Voiced told before [WorkWaves.tellings past] p) :
    Voiced told before [] (advance env setting i past talk p) := by
  classical
  induction talk generalizing past p with
  | done o => exact h.finish (d := ⟨i, past, o⟩)
  | ask c k ih =>
    cases c with
    | interrupted => exact ih _ (h.hear (by simp) _ rfl)
    | time => exact ih _ (h.hear (by simp) _ rfl)
    | tell e => exact ih _ (h.tell (henv.tell e _))
    | write r => exact ih _ (h.hear (by simp) _ (henv.write r _))
    | lock =>
      have hh := h.hear (c := .lock) (by simp) () rfl
      unfold Crew.advance
      dsimp only
      split
      · refine hh.move rfl (List.perm_iff_count.mpr fun t => ?_) fun n hn => .inl hn
        simp only [tellings, List.map_append, List.map_cons, List.map_nil, List.count_append, List.count_nil,
          Hand.tellings]
        omega
      · exact ih _ (hh.move rfl (.refl _) fun n hn => .inl hn)
    | unlock =>
      have hh : Voiced told before [WorkWaves.tellings (past ++ [⟨.unlock, ()⟩])] (p.rouse env) :=
        (h.hear (c := .unlock) (by simp) () rfl).rouse env
      unfold Crew.advance
      dsimp only
      split
      · exact ih _ (hh.move rfl (.refl _) fun n hn => .inl hn)
      · next next rest hq =>
        refine ih _ (hh.move rfl (List.perm_iff_count.mpr fun t => ?_) fun n hn => .inl hn)
        simp only [tellings, hq, List.map_append, List.map_cons, List.map_nil, List.count_append, List.count_cons,
          List.count_nil]
        omega
    | fix r =>
      have hw := henv.fix r p.world
      unfold Crew.advance
      dsimp only
      split
      · exact ih _ (h.hear (by simp) _ hw)
      · split
        · exact ih _ (h.hear (c := .fix r) (by simp) FixEnd.interrupted hw)
        · refine (h.hear (by simp) _ hw).sleep fun x hx => ?_
          cases hx
          simp only [Hand.tellings, tellings_append]
          rfl
    | errand e =>
      have hw := henv.errand e p.world
      unfold Crew.advance
      dsimp only
      split
      · exact ih _ (h.hear (by simp) _ hw)
      · exact (h.hear (by simp) _ hw).sleep (by simp)

theorem enter (henv : env.Hears told) (h : Voiced told before [] p) :
    Voiced told before [] (enter env setting i p) := by
  unfold Crew.enter
  split
  · exact h.move rfl (.refl _) fun n hn => .inl hn
  · exact Voiced.advance henv (h.begin.move rfl (.refl _) fun n hn => .inl hn)

theorem wake (henv : env.Hears told) {n : Nap} {others : List Nap} (h : Voiced told before [] p) (hr : p.ready = [])
    (hs : firstToWake p.sleeping = some (n, others)) : Voiced told before [] (p.wake env n others) := by
  have hperm := firstToWake_perm hs
  unfold Crew.wake
  dsimp only
  split
  · exact h.move (henv.pass _ _) (.refl _) fun n hn => .inl hn
  · refine h.move ((henv.pass _ _).trans (henv.pass _ _)) ?_ fun m hm => .inl ?_
    · simp only [tellings, hr, List.map_nil, List.nil_append, List.map_cons, List.cons_append]
      exact (hperm.map _).append_right _
    · exact hperm.mem_iff.mpr (List.mem_cons_of_mem n hm)

theorem drive (henv : env.Hears told) (fuel : Nat) (h : Voiced told before [] p) :
    Voiced told before [] (drive env setting fuel p) := by
  induction fuel generalizing p with
  | zero => exact h
  | succ fuel ih =>
    have hr := h.rouse env
    unfold Crew.drive
    dsimp only
    split
    · exact ih (Voiced.enter henv (hr.move rfl (.refl _) fun n hn => .inl hn))
    · next x rest _ hl =>
      refine ih (Voiced.advance henv (hr.move rfl ?_ fun n hn => .inl hn))
      simp only [tellings, hl, List.map_cons, List.cons_append, List.nil_append]
      exact .refl _
    · next _ hl =>
      split
      · next n others hs => exact ih (hr.wake henv hl hs)
      · exact hr

end Voiced

end Crew

variable {items : List Item} {w : σ} {I : σ → Prop}

variable (setting items) in
/-- What is told while a pool works on some items is what their workers tell, one in another. -/
theorem exists_told_of_run (hhears : env.Hears told) (henv : env.Steady I) (hw : I w) :
    ∃ l, told (run env setting items w).2 = told w ++ l ∧
      Interleaved ((run env setting items w).1.map (Outcome.tellings setting.waveIndex)) l := by
  obtain ⟨s, hbooks, hnow, -, hready, hsleeping⟩ := drive_start_books setting henv _ items hw
  have hatLock : (Pool.drive env setting (steps items.length)
      (start (setting.limits.workersFor items.length) items w)).atLock = [] := by
    rw [hbooks.atLock, hbooks.atLock_eq_nil hnow hready hsleeping, List.map_nil]
  have hvoiced : Crew.Voiced told (told w) [] (Crew.drive env setting (steps items.length)
      { world := w, entering := items, free := setting.limits.workersFor items.length }) :=
    Crew.Voiced.drive hhears _ ⟨⟨[], (List.append_nil _).symm, .nil⟩, by simp⟩
  have hforget : (Crew.drive env setting (steps items.length)
      { world := w, entering := items, free := setting.limits.workersFor items.length }).forget =
      Pool.drive env setting (steps items.length) (start (setting.limits.workersFor items.length) items w) :=
    Crew.forget_drive ..
  have hwhole := diaries_whole env setting items w
  rw [← outcomes_diaries]
  unfold diaries at hwhole ⊢
  generalize Crew.drive env setting (steps items.length)
    { world := w, entering := items, free := setting.limits.workersFor items.length } = c at hvoiced hforget hwhole
  have hr : c.ready = [] := List.map_eq_nil_iff.mp ((congrArg Pool.ready hforget).trans hready)
  have hs : c.sleeping = [] := List.map_eq_nil_iff.mp ((congrArg Pool.sleeping hforget).trans hsleeping)
  have ha : c.atLock = [] := List.map_eq_nil_iff.mp ((congrArg Pool.atLock hforget).trans hatLock)
  obtain ⟨l, hl, hi⟩ := hvoiced.heard
  refine ⟨l, (congrArg told (congrArg Pool.world hforget)).symm.trans hl, ?_⟩
  have htellings : [] ++ c.tellings = (c.finished.map (·.outcome)).map (Outcome.tellings setting.waveIndex) := by
    simp only [Crew.tellings, hr, hs, ha, List.map_nil, List.nil_append, List.map_map]
    exact List.map_congr_left fun d hd => (Worker.work_tells setting d.item).leads (hwhole d hd).2
  exact htellings ▸ hi

end Pool

end WorkWaves
