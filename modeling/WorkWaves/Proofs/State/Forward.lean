import WorkWaves.Proofs.Run.State
import Mathlib.Data.List.Destutter

/-!
# Statuses only move forward

A call is refused just if its move is not allowed (`run_eq_error`), and else says for every item where it stands
afterwards (`stand_of_run`). So from one state to the next an item stays or makes an allowed move (`standing_after`),
and what it goes through in the course of calls is a part of one of the lives that an item can have
(`Status.infix_life_of_isChain`).
-/

namespace WorkWaves

namespace Status

variable {a b c : Status} {l : List Status}

/-- The lives of an item that runs, and of one that is skipped. -/
def lives : List (List Status) :=
  [completed, failed, timeout, interrupted].map ([pending, running, ·]) ++ [[pending, skipped]]

theorem not_allows_of_isTerminal (h : a.isTerminal = true) : a.allows b = false := by
  cases a <;> first | rfl | cases h

/-- Where a move is followed by another, the item ran in between. -/
theorem eq_running_of_allows (hab : a.allows b = true) (hbc : b.allows c = true) : a = pending ∧ b = running := by
  have hb : b.isTerminal = false := by
    rw [← Bool.not_eq_true]
    intro hb
    rw [not_allows_of_isTerminal hb] at hbc
    cases hbc
  revert hab hb
  cases a <;> cases b <;> decide

/-- Allowed moves one after the other are a part of a life. -/
theorem infix_life_of_isChain (hl : l ≠ []) (h : l.IsChain (fun a b => a.allows b = true)) :
    ∃ life ∈ lives, l <:+: life := by
  match l with
  | [] => exact absurd rfl hl
  | [a] => cases a <;> decide
  | [a, b] =>
    have hab : a.allows b = true := (List.isChain_cons_cons.mp h).1
    revert hab
    cases a <;> cases b <;> decide
  | [a, b, c] =>
    obtain ⟨hab, h⟩ := List.isChain_cons_cons.mp h
    have hbc : b.allows c = true := (List.isChain_cons_cons.mp h).1
    obtain ⟨rfl, rfl⟩ := eq_running_of_allows hab hbc
    revert hbc
    cases c <;> decide
  | a :: b :: c :: d :: l =>
    obtain ⟨hab, h⟩ := List.isChain_cons_cons.mp h
    obtain ⟨hbc, h⟩ := List.isChain_cons_cons.mp h
    have hcd : c.allows d = true := (List.isChain_cons_cons.mp h).1
    have hpending := (eq_running_of_allows hbc hcd).1
    rw [(eq_running_of_allows hab hbc).2] at hpending
    cases hpending

end Status

/-- Where each element of a list is that before it or comes by a step, those that differ come by steps. -/
theorem isChain_destutter' {α : Type} [DecidableEq α] {S : α → α → Prop} {a : α} {l : List α}
    (h : (a :: l).IsChain (fun a b => a = b ∨ S a b)) :
    (l.destutter' (· ≠ ·) a).head? = some a ∧ (l.destutter' (· ≠ ·) a).IsChain S := by
  induction l generalizing a with
  | nil => exact ⟨rfl, .singleton a⟩
  | cons b l ih =>
    obtain ⟨hab, hl⟩ := List.isChain_cons_cons.mp h
    by_cases he : a = b
    · subst he
      rw [List.destutter'_cons_neg _ (by simp)]
      exact ih hl
    · obtain ⟨hhead, hchain⟩ := ih hl
      rw [List.destutter'_cons_pos _ he]
      refine ⟨rfl, List.isChain_cons.mpr ⟨fun c hc => ?_, hchain⟩⟩
      rw [hhead] at hc
      exact Option.some.inj hc ▸ hab.resolve_left he

namespace RunState

/-- A call that makes an item known or moves it at some time, perhaps for a reason. -/
inductive Call where
  | register (id : String)
  | move (now : Timestamp) (id : String) (target : Status)
  | moveFor (now : Timestamp) (id : String) (target : Status) (reason : String)

namespace Call

/-- The item that a call is about. -/
def id : Call → String
  | register id | move _ id _ | moveFor _ id _ _ => id

def target? : Call → Option Status
  | register _ => none
  | move _ _ target | moveFor _ _ target _ => some target

def reason? : Call → Option String
  | moveFor _ _ _ reason => some reason
  | _ => none

/-- The state that a call leads to, or its refusal. -/
def run (s : RunState) : Call → Except Refusal RunState
  | register id => .ok (s.register id)
  | move now id target => s.setStatus now id target
  | moveFor now id target reason => s.setStatusFor now id target reason

end Call

variable {s s' t : RunState} {c : Call} {calls : List Call} {i x : String} {r : Refusal}

/-- The status that an item counts to have: one that is not known is pending. -/
def standing (s : RunState) (id : String) : Status := (s.status? id).getD .pending

/-- The state that a call leaves, whether it is refused or not. -/
def after (s : RunState) (c : Call) : RunState :=
  match c.run s with
  | .ok s' => s'
  | .error r => r.state

/-- The states in the course of some calls, from the first on. -/
def course (s : RunState) : List Call → List RunState
  | [] => [s]
  | c :: calls => s :: course (s.after c) calls

/-! ### What a call does -/

/-- A call is refused just if it asks for a move that is not allowed; the refusal names the move, and what the call
leaves is the state as it was. -/
theorem run_eq_error : c.run s = .error r ↔ ∃ target, c.target? = some target ∧
    (s.standing c.id).allows target = false ∧ r = ⟨⟨c.id, s.standing c.id, target⟩, s⟩ := by
  cases c with
  | register id => simp [Call.run, Call.target?]
  | move now id target => simp [Call.run, Call.target?, Call.id, standing, setStatus_eq_error_iff]
  | moveFor now id target reason =>
    simp [Call.run, Call.target?, Call.id, standing, setStatusFor_eq_error_iff, setStatus_eq_error_iff]

/-- A call that is not refused changes where its item stands as it says, and nothing for others. -/
theorem stand_of_run (h : c.run s = .ok s') (x : String) : s'.stand x =
    if x = c.id then (some (c.target?.getD (s.standing c.id)), c.reason?.or (s.reason? c.id)) else s.stand x := by
  cases c with
  | register id =>
    cases h
    show ((s.register id).status? x, (s.register id).reason? x) =
      if x = id then (some (s.standing id), s.reason? id) else s.stand x
    rw [status?_register, reason?_register]
    split
    · next hx =>
      rw [hx]
      rfl
    · rfl
  | move now id target => exact stand_of_setStatus h x
  | moveFor now id target reason => exact stand_of_setStatusFor h x

theorem after_of_error (h : c.run s = .error r) : s.after c = s := by
  obtain ⟨target, -, -, rfl⟩ := run_eq_error.mp h
  unfold after
  rw [h]

theorem after_of_ok (h : c.run s = .ok s') : s.after c = s' := by
  unfold after
  rw [h]

theorem allows_of_run (h : c.run s = .ok s') {target : Status} (ht : c.target? = some target) :
    (s.standing c.id).allows target = true := by
  cases c with
  | register id => cases ht
  | move now id target =>
    cases ht
    exact allows_of_setStatus h
  | moveFor now id target reason =>
    cases ht
    exact allows_of_setStatusFor h

/-- An item stays where it is or makes an allowed move. -/
theorem standing_after (s : RunState) (c : Call) (x : String) : s.standing x = (s.after c).standing x ∨
    (s.standing x).allows ((s.after c).standing x) = true := by
  cases hrun : c.run s with
  | error r => exact .inl (by rw [after_of_error hrun])
  | ok s' =>
    have hstatus : s'.status? x = if x = c.id then some (c.target?.getD (s.standing c.id)) else s.status? x := by
      have h := congrArg Prod.fst (stand_of_run hrun x)
      rw [apply_ite Prod.fst] at h
      exact h
    rw [after_of_ok hrun, standing, standing, hstatus]
    split
    · next hx =>
      subst hx
      cases ht : c.target? with
      | none => exact .inl rfl
      | some target => exact .inr (allows_of_run hrun ht)
    · exact .inl rfl

theorem status?_of_isTerminal (h : (s.standing x).isTerminal = true) : s.status? x = some (s.standing x) := by
  unfold standing at h ⊢
  cases hx : s.status? x with
  | none =>
    rw [hx] at h
    cases h
  | some st => rfl

/-- An item that is done with stands as it did. -/
theorem stand_after (h : (s.standing x).isTerminal = true) (c : Call) : (s.after c).stand x = s.stand x := by
  cases hrun : c.run s with
  | error r => rw [after_of_error hrun]
  | ok s' =>
    rw [after_of_ok hrun, stand_of_run hrun]
    split
    · next hx =>
      subst hx
      cases c with
      | register id => exact congrArg (·, s.reason? id) (status?_of_isTerminal h).symm
      | move now id target | moveFor now id target reason =>
        exact absurd (allows_of_run hrun rfl) (by simp [Status.not_allows_of_isTerminal h])
    · rfl

/-! ### What calls do -/

theorem exists_course_eq_cons (s : RunState) (calls : List Call) : ∃ rest, s.course calls = s :: rest := by
  cases calls with
  | nil => exact ⟨[], rfl⟩
  | cons c calls => exact ⟨_, rfl⟩

theorem isChain_course (s : RunState) (calls : List Call) (x : String) :
    ((s.course calls).map (·.standing x)).IsChain (fun a b => a = b ∨ a.allows b = true) := by
  induction calls generalizing s with
  | nil => exact .singleton _
  | cons c calls ih =>
    have hrest := ih (s.after c)
    obtain ⟨rest, hcourse⟩ := exists_course_eq_cons (s.after c) calls
    rw [course, List.map_cons]
    rw [hcourse, List.map_cons] at hrest ⊢
    exact List.isChain_cons_cons.mpr ⟨standing_after s c x, hrest⟩

theorem stand_of_mem_course (h : (s.standing x).isTerminal = true) (ht : t ∈ s.course calls) :
    t.stand x = s.stand x := by
  induction calls generalizing s with
  | nil => rw [List.mem_singleton.mp ht]
  | cons c calls ih =>
    rcases List.mem_cons.mp ht with rfl | ht
    · rfl
    · have hafter := stand_after h c
      have hstanding : (s.after c).standing x = s.standing x := by
        rw [standing, standing]
        exact congrArg (·.1.getD .pending) hafter
      rw [ih (hstanding ▸ h) ht, hafter]

/-- Whatever calls are made, an item goes through a part of one of its lives, and one that is done with stands as it
did. A call is refused, with the move that it asked for, just if that is not allowed, and then leaves the whole state as
it is; else it moves its item as it says, and leaves all others where they stand. Making an item known leaves its status
if it has one. -/
theorem lives_of_course (s : RunState) :
    (∀ calls id, ∃ life ∈ Status.lives, ((s.course calls).map (·.standing id)).destutter (· ≠ ·) <:+: life) ∧
    (∀ calls id, (s.standing id).isTerminal = true → ∀ t ∈ s.course calls, t.stand id = s.stand id) ∧
    (∀ (c : Call) r, c.run s = .error r ↔ ∃ target, c.target? = some target ∧
      (s.standing c.id).allows target = false ∧ r = ⟨⟨c.id, s.standing c.id, target⟩, s⟩) ∧
    (∀ (c : Call) r, c.run s = .error r → s.after c = s) ∧
    (∀ (c : Call) s', c.run s = .ok s' → s.after c = s' ∧ ∀ x, s'.stand x =
      if x = c.id then (some (c.target?.getD (s.standing c.id)), c.reason?.or (s.reason? c.id)) else s.stand x) ∧
    ∀ id st x, s.status? id = some st → (s.after (.register x)).status? id = some st := by
  refine ⟨fun calls id => ?_, fun calls id h t ht => stand_of_mem_course h ht, fun c r => run_eq_error,
    fun c r => after_of_error, fun c s' h => ⟨after_of_ok h, stand_of_run h⟩, fun id st x h => ?_⟩
  · obtain ⟨rest, hcourse⟩ := exists_course_eq_cons s calls
    have hchain := isChain_course s calls id
    rw [hcourse, List.map_cons] at hchain ⊢
    exact Status.infix_life_of_isChain (List.destutter'_ne_nil _ _) (isChain_destutter' hchain).2
  · show (s.register x).status? id = some st
    rw [status?_register]
    split
    · next hx => rw [← hx, h]; rfl
    · exact h

/-- An item fails, is made known again and is to be completed after all, and one that nobody knew is skipped. -/
def afterthoughts : List Call :=
  [.move ⟨2024, 5, 1, 8, 0, 0, 0⟩ "A" .running, .moveFor ⟨2024, 5, 1, 8, 5, 0, 0⟩ "A" .failed "exit 1", .register "A",
    .moveFor ⟨2024, 5, 1, 8, 6, 0, 0⟩ "A" .completed "it did work", .move ⟨2024, 5, 1, 8, 7, 0, 0⟩ "B" .skipped]

theorem lives_of_afterthoughts : ∃ failed : RunState, failed.stand "A" = (some .failed, some "exit 1") ∧
    (failed.standing "A").isTerminal = true ∧ (∀ t ∈ failed.course afterthoughts, t.stand "A" = failed.stand "A") ∧
    ((failed.course afterthoughts).map (·.standing "B")).destutter (· ≠ ·) = [.pending, .skipped] ∧
    ∃ life ∈ Status.lives, ((failed.course afterthoughts).map (·.standing "B")).destutter (· ≠ ·) <:+: life := by
  refine ⟨(afterthoughts.take 2).foldl after (.new ⟨2024, 5, 1, 8, 0, 0, 0⟩), by decide, by decide, ?_, by decide, ?_⟩
  · exact (lives_of_course _).2.1 afterthoughts "A" (by decide)
  · exact (lives_of_course _).1 afterthoughts "B"

end RunState

end WorkWaves
