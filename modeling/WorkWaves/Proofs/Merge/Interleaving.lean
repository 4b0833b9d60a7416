import Mathlib.Data.List.Nodup
import Mathlib.Logic.Function.Basic
import Mathlib.Logic.Relation
import WorkWaves.Proofs.Merge.Course

/-!
# Merges side by side

Any number of merges ask in turns, in any order and with any answers; only the lock is granted to nobody while
somebody holds it (`Step`). The log keeps who asked what. In each log that comes about, all that one merge asks
stands together, from the lock to giving it back (`blocks_of_steps`): the notes of the merges follow each other
in the order in which they got the lock, and only the last one may still be under way.

`Account` is the invariant. It keeps that order beside the scene; nothing in the program remembers it.
-/

namespace WorkWaves.Merge

open Dialogue Relation

/-! ### What a merge asks at which time -/

/-- How far a merge is. -/
inductive Phase where
  | waiting
  | holding
  | finished
  deriving DecidableEq

namespace Phase

def allow : Phase → MergeCall → Prop
  | waiting, c => c = .lock
  | holding, c => c ≠ .lock
  | finished, _ => False

def next (p : Phase) : Exchange MergeCall MergeCall.Answer → Phase
  | ⟨.lock, _⟩ => holding
  | ⟨.unlock, _⟩ => finished
  | _ => p

theorem next_other (p : Phase) {c : MergeCall} (hl : c ≠ .lock) (hu : c ≠ .unlock) (a : c.Answer) :
    p.next ⟨c, a⟩ = p := by
  cases c <;> first | rfl | contradiction

/-- What may be asked with the lock and without it neither takes the lock nor gives it back. -/
theorem safe_of_both {α : Type} {b b' : Bool} {P Q : Watch → α → Prop} {d : Talk α}
    (hf : Safe Merge.allow Merge.next P { held := false, stopped := b } d)
    (ht : Safe Merge.allow Merge.next Q { held := true, stopped := b' } d) :
    Safe allow next (fun p _ => p = holding) holding d := by
  induction d generalizing b b' with
  | done a => rfl
  | ask c k ih =>
    obtain ⟨hcf, hf⟩ := hf
    obtain ⟨hct, ht⟩ := ht
    have hl : c ≠ .lock := by
      rintro rfl
      exact absurd hct (by simp [Merge.allow])
    have hu : c ≠ .unlock := by
      rintro rfl
      exact absurd hcf (by simp [Merge.allow])
    refine ⟨hl, fun a => ?_⟩
    rw [next_other _ hl hu]
    specialize hf a
    specialize ht a
    cases c with
    | lock => contradiction
    | unlock => contradiction
    | interrupted => exact ih a hf ht
    | repository c => exact ih a hf ht
    | write r => exact ih a hf ht

theorem underLock_safe (x : Exclusions) (v : Workspace) (message : String) :
    Safe allow next (fun p _ => p = holding) holding (underLock x v message) := by
  refine ⟨by simp [allow], ?_⟩
  rintro (_ | _)
  · refine ⟨by simp [allow, next], ?_⟩
    rintro (e | head)
    · rfl
    · exact safe_of_both (around_quiet { held := false } x v message head)
        (around_quiet { held := true } x v message head)
  · exact ⟨by simp [allow, next], fun _ => rfl⟩

theorem integrate_safe (x : Exclusions) (v : Workspace) (message : String) :
    Safe allow next (fun p _ => p = finished) waiting (integrate x v message) := by
  refine ⟨rfl, fun _ => (underLock_safe x v message).andThen ?_⟩
  rintro _ r rfl
  exact ⟨by simp [allow], fun _ => rfl⟩

end Phase

/-- A merge that has begun has asked for the lock first. If it then heard of an interrupt, it asks nothing of
the repository. -/
theorem begins_of_leads {x : Exclusions} {v : Workspace} {message : String}
    {h : List (Exchange MergeCall MergeCall.Answer)} {d : Talk (Except Failure MergeOutcome)}
    (hd : Leads (integrate x v message) h d) :
    h = [] ∨ h = [⟨.lock, ()⟩] ∨ ∃ b t, h = ⟨.lock, ()⟩ :: ⟨.interrupted, b⟩ :: t ∧
      (b = true → ∀ c a, ⟨.repository c, a⟩ ∉ t) := by
  cases hd with
  | refl => exact .inl rfl
  | ask hd =>
    cases hd with
    | refl => exact .inr (.inl rfl)
    | @ask _ _ b t _ hd =>
      refine .inr (.inr ⟨b, t, rfl, ?_⟩)
      rintro rfl c a
      -- What is left is the note of the interrupt and giving the lock back.
      cases hd with
      | refl => simp
      | ask hd =>
        cases hd with
        | refl => simp
        | ask hd =>
          cases hd
          simp

theorem ends_of_leads {x : Exclusions} {v : Workspace} {message : String}
    {h : List (Exchange MergeCall MergeCall.Answer)} {r : Except Failure MergeOutcome}
    (hd : Leads (integrate x v message) h (.done r)) :
    ∃ mid, h = ⟨.lock, ()⟩ :: mid ++ [⟨.unlock, ()⟩] ∧ Leads (underLock x v message) mid (.done r) := by
  obtain ⟨⟨⟩, t, rfl, ht⟩ := Leads.ask_done.mp hd
  have ht : Leads ((underLock x v message).andThen fun r => .ask .unlock fun _ => .done r) t (.done r) := ht
  obtain ⟨r', mid, last, rfl, hmid, hlast⟩ := Leads.andThen_done.mp ht
  obtain ⟨⟨⟩, rest, rfl, hrest⟩ := Leads.ask_done.mp hlast
  obtain ⟨rfl, rfl⟩ := Leads.done_done.mp hrest
  exact ⟨mid, rfl, hmid⟩

/-! ### Several merges -/

/-- What was asked on behalf of which merge, and whether an interrupt was pending for it then. -/
structure Note (ι : Type) where
  merge : ι
  exchange : Exchange MergeCall MergeCall.Answer
  stopped : Bool

/-- Several merges on their way. -/
structure Scene (ι : Type) where
  /-- What is left of each merge. -/
  talk : ι → Talk (Except Failure MergeOutcome)
  /-- Who holds the lock. -/
  holder : Option ι
  /-- For whom an interrupt is pending. -/
  stopped : ι → Bool
  log : List (Note ι)

namespace Scene

variable {ι : Type}

def start (x : Exclusions) (request : ι → Workspace × String) : Scene ι where
  talk i := integrate x (request i).1 (request i).2
  holder := none
  stopped _ := false
  log := []

/-- The answers that a call may get: the lock is free when it is given out, and an interrupt that is pending is
told. The repository answers as it likes. -/
def Grants (s : Scene ι) (i : ι) : (c : MergeCall) → c.Answer → Prop
  | .lock, _ => s.holder = none
  | .interrupted, b => b = s.stopped i
  | .unlock, _ | .repository _, _ | .write _, _ => True

/-- Who holds the lock after a call. -/
def holderAfter (s : Scene ι) (i : ι) : MergeCall → Option ι
  | .lock => some i
  | .unlock => none
  | .interrupted | .repository _ | .write _ => s.holder

theorem holderAfter_other (s : Scene ι) (i : ι) {c : MergeCall} (hl : c ≠ .lock) (hu : c ≠ .unlock) :
    s.holderAfter i c = s.holder := by
  cases c <;> first | rfl | contradiction

variable [DecidableEq ι]

def notes (s : Scene ι) (i : ι) : List (Note ι) := s.log.filter (·.merge = i)

/-- What one merge asked and heard. -/
def course (s : Scene ι) (i : ι) : List (Exchange MergeCall MergeCall.Answer) := (s.notes i).map (·.exchange)

/-- A merge got an answer, and `d` is left of it. -/
def answered (s : Scene ι) (i : ι) (e : Exchange MergeCall MergeCall.Answer)
    (d : Talk (Except Failure MergeOutcome)) : Scene ι :=
  { s with talk := Function.update s.talk i d, holder := s.holderAfter i e.1,
           log := s.log ++ [⟨i, e, s.stopped i⟩] }

/-- One of the merges gets an answer, or some of them are to stop. -/
inductive Step (s : Scene ι) : Scene ι → Prop
  | ask {i : ι} {c : MergeCall} {k : c.Answer → Talk (Except Failure MergeOutcome)} (ht : s.talk i = .ask c k)
      (a : c.Answer) (ha : s.Grants i c a) : Step s (s.answered i ⟨c, a⟩ (k a))
  | interrupt (who : ι → Bool) : Step s { s with stopped := fun i => s.stopped i || who i }

section

variable (s : Scene ι) {i j : ι} (e : Exchange MergeCall MergeCall.Answer) (d : Talk (Except Failure MergeOutcome))

theorem notes_answered_self : (s.answered i e d).notes i = s.notes i ++ [⟨i, e, s.stopped i⟩] := by
  simp [notes, answered]

theorem notes_answered_of_ne (h : j ≠ i) : (s.answered i e d).notes j = s.notes j := by
  simp [notes, answered, h.symm]

theorem course_answered_self : (s.answered i e d).course i = s.course i ++ [e] := by
  simp [course, notes_answered_self]

theorem course_answered_of_ne (h : j ≠ i) : (s.answered i e d).course j = s.course j := by
  simp [course, notes_answered_of_ne _ _ _ h]

theorem talk_answered_self : (s.answered i e d).talk i = d := Function.update_self ..

theorem talk_answered_of_ne (h : j ≠ i) : (s.answered i e d).talk j = s.talk j := Function.update_of_ne h ..

/-- A note of the merge that comes last in the log's order is added at the end. -/
theorem log_answered {before : List ι} (hb : i ∉ before) (hl : s.log = (before ++ [i]).flatMap s.notes) :
    (s.answered i e d).log = (before ++ [i]).flatMap (s.answered i e d).notes := by
  have hsame : before.flatMap (s.answered i e d).notes = before.flatMap s.notes := by
    refine List.flatMap_congr fun j hj => notes_answered_of_ne s e d ?_
    rintro rfl
    exact hb hj
  rw [List.flatMap_append, hsame]
  simp only [List.flatMap_singleton, notes_answered_self]
  rw [← List.append_assoc, ← List.flatMap_singleton s.notes i, ← List.flatMap_append, ← hl]
  rfl

end

end Scene

open Scene

variable {ι : Type} [DecidableEq ι] {x : Exclusions} {request : ι → Workspace × String} {s s' : Scene ι}

/-- The merges got the lock in this order, and all but the last are over. -/
structure Account (x : Exclusions) (request : ι → Workspace × String) (order : List ι) (s : Scene ι) : Prop where
  nodup : order.Nodup
  log_eq : s.log = order.flatMap s.notes
  leads : ∀ i, Leads (integrate x (request i).1 (request i).2) (s.course i) (s.talk i)
  fresh : ∀ i ∉ order, s.talk i = integrate x (request i).1 (request i).2 ∧ s.notes i = []
  held : ∀ i, s.holder = some i → (∃ before, order = before ++ [i]) ∧
    Safe Phase.allow Phase.next (fun p _ => p = .finished) .holding (s.talk i)
  finished : ∀ i ∈ order, s.holder ≠ some i → ∃ r, s.talk i = .done r

namespace Account

variable {order : List ι} {i : ι} {c : MergeCall} {k : c.Answer → Talk (Except Failure MergeOutcome)}

theorem start : Account x request [] (Scene.start x request) where
  nodup := .nil
  log_eq := rfl
  leads _ := .refl _
  fresh _ _ := ⟨rfl, rfl⟩
  held _ h := by simp [Scene.start] at h
  finished _ h := by simp at h

theorem leads_answered (h : Account x request order s) (ht : s.talk i = .ask c k) (a : c.Answer) (j : ι) :
    Leads (integrate x (request j).1 (request j).2) ((s.answered i ⟨c, a⟩ (k a)).course j)
      ((s.answered i ⟨c, a⟩ (k a)).talk j) := by
  by_cases hj : j = i
  · subst hj
    have hd := h.leads j
    rw [ht] at hd
    rw [course_answered_self, talk_answered_self]
    exact hd.snoc a
  · rw [course_answered_of_ne _ _ _ hj, talk_answered_of_ne _ _ _ hj]
    exact h.leads j

/-- A merge that has not begun can only get the lock. All that got it before are over then. -/
theorem take (h : Account x request order s) (hi : i ∉ order) (ht : s.talk i = .ask c k) (a : c.Answer)
    (ha : s.Grants i c a) : Account x request (order ++ [i]) (s.answered i ⟨c, a⟩ (k a)) := by
  obtain ⟨hstart, hnotes⟩ := h.fresh i hi
  obtain ⟨rfl, hsafe⟩ : Safe Phase.allow Phase.next (fun p _ => p = .finished) .waiting (.ask c k) := by
    rw [← ht, hstart]
    exact Phase.integrate_safe ..
  have hfree : s.holder = none := ha
  refine ⟨?_, ?_, h.leads_answered ht a, ?_, ?_, ?_⟩
  · refine List.nodup_append.mpr ⟨h.nodup, List.nodup_singleton i, ?_⟩
    rintro j hj _ hi' rfl
    rw [List.mem_singleton] at hi'
    exact hi (hi' ▸ hj)
  · refine log_answered s _ _ hi ?_
    rw [List.flatMap_append, ← h.log_eq, List.flatMap_singleton, hnotes, List.append_nil]
  · intro j hj
    have hne : j ≠ i := by
      rintro rfl
      simp at hj
    rw [talk_answered_of_ne _ _ _ hne, notes_answered_of_ne _ _ _ hne]
    exact h.fresh j fun hmem => hj (List.mem_append_left _ hmem)
  · intro j hj
    obtain rfl : i = j := Option.some.inj hj
    refine ⟨⟨order, rfl⟩, ?_⟩
    rw [talk_answered_self]
    exact hsafe a
  · intro j hj hne
    have hji : j ≠ i := by
      rintro rfl
      exact hne rfl
    rw [talk_answered_of_ne _ _ _ hji]
    have hj : j ∈ order := (List.mem_append.mp hj).resolve_right (by simpa using hji)
    exact h.finished j hj (by simp [hfree])

/-- The merge that holds the lock goes on, and is over when it gives it back. -/
theorem goOn (h : Account x request order s) (hi : s.holder = some i) (ht : s.talk i = .ask c k) (a : c.Answer) :
    Account x request order (s.answered i ⟨c, a⟩ (k a)) := by
  obtain ⟨⟨before, rfl⟩, hsafe⟩ := h.held i hi
  rw [ht] at hsafe
  obtain ⟨hl, hsafe⟩ := hsafe
  have hb : i ∉ before := by
    have := h.nodup
    simp only [List.nodup_append, List.mem_singleton] at this
    exact fun hmem => this.2.2 i hmem i rfl rfl
  refine ⟨h.nodup, log_answered s _ _ hb h.log_eq, h.leads_answered ht a, ?_, ?_, ?_⟩
  · intro j hj
    have hne : j ≠ i := by
      rintro rfl
      simp at hj
    rw [talk_answered_of_ne _ _ _ hne, notes_answered_of_ne _ _ _ hne]
    exact h.fresh j hj
  · intro j hj
    have hu : c ≠ .unlock := by
      rintro rfl
      simp [answered, holderAfter] at hj
    change s.holderAfter i c = some j at hj
    rw [holderAfter_other s i hl hu, hi] at hj
    obtain rfl := Option.some.inj hj
    refine ⟨⟨before, rfl⟩, ?_⟩
    rw [talk_answered_self, ← Phase.next_other .holding hl hu a]
    exact hsafe a
  · intro j hj hne
    change s.holderAfter i c ≠ some j at hne
    by_cases hji : j = i
    · subst hji
      -- Only giving the lock back takes it from `j`, and nothing may follow that.
      obtain rfl : c = .unlock := by
        by_contra hu
        exact hne (by rw [holderAfter_other s j hl hu, hi])
      rw [talk_answered_self]
      specialize hsafe a
      cases hk : k a with
      | done r => exact ⟨r, rfl⟩
      | ask c' k' =>
        rw [hk] at hsafe
        exact hsafe.1.elim
    · rw [talk_answered_of_ne _ _ _ hji]
      exact h.finished j hj (by rw [hi]; simpa using Ne.symm hji)

theorem asks (h : Account x request order s) (ht : s.talk i = .ask c k) : i ∉ order ∨ s.holder = some i := by
  by_cases hi : i ∈ order
  · refine .inr (by_contra fun hne => ?_)
    obtain ⟨r, hr⟩ := h.finished i hi hne
    rw [hr] at ht
    cases ht
  · exact .inl hi

theorem step (h : Account x request order s) (hs : Step s s') : ∃ order', Account x request order' s' := by
  cases hs with
  | ask ht a ha =>
    rcases h.asks ht with hi | hi
    · exact ⟨_, h.take hi ht a ha⟩
    · exact ⟨order, h.goOn hi ht a⟩
  | interrupt who => exact ⟨order, h.nodup, h.log_eq, h.leads, h.fresh, h.held, h.finished⟩

theorem of_steps (h : ReflTransGen Step (Scene.start x request) s) : ∃ order, Account x request order s := by
  induction h with
  | refl => exact ⟨[], start⟩
  | tail _ hs ih =>
    obtain ⟨order, h⟩ := ih
    exact h.step hs

end Account

/-! ### Interrupts -/

/-- An interrupt stays pending, and a merge that asks hears of it. -/
structure Alerted (s : Scene ι) : Prop where
  pending : ∀ n ∈ s.log, n.stopped = true → s.stopped n.merge = true
  heard : ∀ n ∈ s.log, ∀ b, n.exchange = ⟨.interrupted, b⟩ → b = n.stopped
  lasting : ∀ i, (s.notes i).Pairwise fun m n => m.stopped = true → n.stopped = true

namespace Alerted

theorem start : Alerted (Scene.start x request) :=
  ⟨by simp [Scene.start], by simp [Scene.start], by simp [Scene.start, notes]⟩

theorem step (h : Alerted s) (hs : Step s s') : Alerted s' := by
  cases hs with
  | @ask i c k ht a ha =>
    refine ⟨?_, ?_, fun j => ?_⟩
    · intro n hn hstop
      rcases List.mem_append.mp hn with hn | hn
      · exact h.pending n hn hstop
      · rw [List.mem_singleton] at hn
        subst hn
        exact hstop
    · intro n hn b he
      rcases List.mem_append.mp hn with hn | hn
      · exact h.heard n hn b he
      · rw [List.mem_singleton] at hn
        subst hn
        cases he
        exact ha
    · by_cases hj : j = i
      · subst hj
        rw [notes_answered_self]
        refine List.pairwise_append.mpr ⟨h.lasting j, List.pairwise_singleton .., ?_⟩
        intro m hm n hn hstop
        rw [List.mem_singleton] at hn
        subst hn
        obtain ⟨hlog, rfl⟩ : m ∈ s.log ∧ m.merge = j := by simpa [notes] using hm
        exact h.pending m hlog hstop
      · rw [notes_answered_of_ne _ _ _ hj]
        exact h.lasting j
  | interrupt who =>
    refine ⟨fun n hn hstop => ?_, h.heard, h.lasting⟩
    simp [h.pending n hn hstop]

theorem of_steps (h : ReflTransGen Step (Scene.start x request) s) : Alerted s := by
  induction h with
  | refl => exact start
  | tail _ hs ih => exact ih.step hs

end Alerted

/-! ### Merges take turns -/

omit [DecidableEq ι] in
/-- Blocks of notes follow each other, so a note between two of one merge is of that merge. -/
theorem merge_eq_of_sublist {block : ι → List (Note ι)} (hb : ∀ i, ∀ n ∈ block i, n.merge = i) {order : List ι}
    (hn : order.Nodup) {l m n : Note ι} (h : [l, m, n].Sublist (order.flatMap block)) (he : l.merge = n.merge) :
    m.merge = l.merge := by
  induction order with
  | nil => simp at h
  | cons i rest ih =>
    obtain ⟨hi, hn⟩ := List.nodup_cons.mp hn
    rw [List.flatMap_cons] at h
    obtain ⟨t, u, htu, ht, hu⟩ := List.sublist_append_iff.mp h
    have hmem : ∀ e ∈ t, e.merge = i := fun e he => hb i e (ht.subset he)
    rcases List.eq_nil_or_concat u with rfl | ⟨u, y, rfl⟩
    · -- All three are in the first block.
      rw [List.append_nil] at htu
      subst htu
      rw [hmem l (by simp), hmem m (by simp)]
    · rw [List.concat_eq_append, ← List.append_assoc] at htu
      obtain ⟨hlm, hy⟩ := List.append_inj' (show [l, m] ++ [n] = (t ++ u) ++ [y] from htu) rfl
      obtain rfl := List.singleton_inj.mp hy
      cases t with
      | nil =>
        rw [List.nil_append] at hlm
        subst hlm
        exact ih hn hu
      | cons a t =>
        -- The first is in the first block, but the last is in a later one.
        obtain ⟨rfl, -⟩ := List.cons.inj hlm
        obtain ⟨j, hj, hnj⟩ := List.mem_flatMap.mp (hu.subset (by simp : n ∈ u.concat n))
        rw [← hmem l (by simp), he, hb j n hnj] at hi
        exact absurd hj hi

/-- Several merges in a row. -/
structure Serial (x : Exclusions) (request : ι → Workspace × String) (order : List ι) (s : Scene ι) : Prop where
  nodup : order.Nodup
  /-- All that a merge asked stands together in the log. -/
  log_eq : s.log = order.flatMap s.notes
  /-- Nobody asks between two questions of one merge. -/
  between : ∀ l m n, [l, m, n].Sublist s.log → l.merge = n.merge → m.merge = l.merge
  waiting : ∀ i ∉ order, s.talk i = integrate x (request i).1 (request i).2 ∧ s.notes i = []
  /-- A merge that had the lock asked for it first and gave it back last, however it ended. -/
  complete : ∀ i ∈ order, s.holder ≠ some i → ∃ mid r, s.talk i = .done r ∧
    s.course i = ⟨.lock, ()⟩ :: mid ++ [⟨.unlock, ()⟩] ∧
    Leads (underLock x (request i).1 (request i).2) mid (.done r)
  /-- Whoever holds the lock got it last, and asks for something else than the lock. -/
  holding : ∀ i, s.holder = some i → order.getLast? = some i ∧ ∃ c k, s.talk i = .ask c k ∧ c ≠ .lock
  released : ∀ i r, s.talk i = .done r → s.holder ≠ some i
  bounded : ∀ i, (s.course i).length ≤ 19
  /-- With an interrupt pending when it got the lock, a merge asks nothing of the repository. -/
  interrupted : ∀ i n rest, s.notes i = n :: rest → n.exchange = ⟨.lock, ()⟩ ∧
    (n.stopped = true → ∀ m ∈ rest, ∀ c a, m.exchange ≠ ⟨.repository c, a⟩)

theorem Account.holding {order : List ι} (h : Account x request order s) {i : ι} (hi : s.holder = some i) :
    order.getLast? = some i ∧ ∃ c k, s.talk i = .ask c k ∧ c ≠ .lock := by
  obtain ⟨⟨before, rfl⟩, hsafe⟩ := h.held i hi
  refine ⟨by simp, ?_⟩
  cases ht : s.talk i with
  | done r =>
    rw [ht] at hsafe
    cases hsafe
  | ask c k =>
    rw [ht] at hsafe
    exact ⟨c, k, rfl, hsafe.1⟩

theorem Account.interrupted {order : List ι} (h : Account x request order s) (ht : Alerted s) {i : ι} {n : Note ι}
    {rest : List (Note ι)} (hn : s.notes i = n :: rest) : n.exchange = ⟨.lock, ()⟩ ∧
      (n.stopped = true → ∀ m ∈ rest, ∀ c a, m.exchange ≠ ⟨.repository c, a⟩) := by
  have hc : s.course i = n.exchange :: rest.map (·.exchange) := by
    rw [course, hn, List.map_cons]
  rcases begins_of_leads (h.leads i) with he | he | ⟨b, t, he, hb⟩
  · rw [hc] at he
    cases he
  · rw [hc] at he
    injection he with he hrest
    obtain rfl := List.map_eq_nil_iff.mp hrest
    exact ⟨he, by simp⟩
  · rw [hc] at he
    injection he with he hrest
    refine ⟨he, fun hstop => ?_⟩
    obtain ⟨m, rest, rfl, hm, hrest⟩ := List.map_eq_cons_iff.mp hrest
    have hlasting := ht.lasting i
    rw [hn] at hlasting
    have hmstop : m.stopped = true := (List.pairwise_cons.mp hlasting).1 m (by simp) hstop
    have hlog : m ∈ s.log := by
      have : m ∈ s.notes i := by simp [hn]
      exact List.mem_of_mem_filter this
    have hbtrue : b = true := (ht.heard m hlog b hm).trans hmstop
    intro m' hm' c a hrep
    rcases List.mem_cons.mp hm' with rfl | hm'
    · rw [hm] at hrep
      cases hrep
    · exact hb hbtrue c a (hrest ▸ hrep ▸ List.mem_map_of_mem hm')

/-- However merges are interleaved, whatever the repository answers and whenever interrupts come, the merges
take turns. -/
theorem serial_of_steps (h : ReflTransGen Step (Scene.start x request) s) :
    ∃ order, Serial x request order s := by
  obtain ⟨order, hacc⟩ := Account.of_steps h
  have halerted := Alerted.of_steps h
  refine ⟨order, hacc.nodup, hacc.log_eq, ?_, hacc.fresh, ?_, fun i => hacc.holding, ?_, ?_,
    fun i n rest => hacc.interrupted halerted⟩
  · intro l m n hsub
    rw [hacc.log_eq] at hsub
    exact merge_eq_of_sublist (by simp [notes]) hacc.nodup hsub
  · intro i hi hne
    obtain ⟨r, hr⟩ := hacc.finished i hi hne
    have hd := hacc.leads i
    rw [hr] at hd
    obtain ⟨mid, hcourse, hmid⟩ := ends_of_leads hd
    exact ⟨mid, r, hr, hcourse, hmid⟩
  · intro i r hr hi
    obtain ⟨-, c, k, hk, -⟩ := hacc.holding hi
    rw [hr] at hk
    cases hk
  · exact fun i => ((integrate_within x (request i).1 (request i).2).leads (hacc.leads i)).1

/-- One merge cannot read where the repository is. The other gets the lock after it, with an interrupt
pending. -/
theorem serial_of_refused : ∃ s : Scene Bool,
    ReflTransGen Step (Scene.start {} fun _ => (⟨"a", "b/a", "/w/a"⟩, "Merge a")) s ∧
    s.log.map (fun n => (n.merge, n.exchange.1, n.stopped)) =
      [(true, .lock, false), (true, .interrupted, false), (true, .repository .head, true), (true, .unlock, true),
       (false, .lock, true), (false, .interrupted, true),
       (false, .write { level := .info, area := .merge, text := "Interrupt pending, merge not attempted" }, true),
       (false, .unlock, true)] ∧
    ∃ order, Serial {} (fun _ => (⟨"a", "b/a", "/w/a"⟩, "Merge a")) order s := by
  have first := (((((ReflTransGen.refl (r := Step)
    (a := Scene.start {} fun _ : Bool => (⟨"a", "b/a", "/w/a"⟩, "Merge a"))).tail
    (.ask (i := true) (c := .lock) rfl () rfl)).tail
    (.ask (i := true) (c := .interrupted) rfl false rfl)).tail
    (.interrupt fun _ => true)).tail
    (.ask (i := true) (c := .repository .head) rfl (.error { cause := "no HEAD" }) trivial)).tail
    (.ask (i := true) (c := .unlock) rfl () trivial)
  have second := (((first.tail
    (.ask (i := false) (c := .lock) rfl () rfl)).tail
    (.ask (i := false) (c := .interrupted) rfl true rfl)).tail
    (.ask (i := false) (c := .write _) rfl () trivial)).tail
    (.ask (i := false) (c := .unlock) rfl () trivial)
  exact ⟨_, second, rfl, serial_of_steps second⟩

end WorkWaves.Merge
