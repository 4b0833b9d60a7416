import WorkWaves.Merge.Integration
import WorkWaves.Proofs.Dialogue

/-!
# The course of a merge

A merge takes the lock once, gives it back at its end, and says that it was interrupted only when it heard so
(`integrate_safe`). Whatever is answered, it asks no more than `integrate_within` says.
-/

namespace WorkWaves

open Dialogue

/-- What a watcher of a merge or a worker remembers. -/
structure Watch where
  /-- Whether the lock is held. -/
  held : Bool := false
  /-- Whether an interrupt was answered. -/
  stopped : Bool := false

namespace Merge

/-- Nobody asks for the lock while holding it, or gives it back otherwise. -/
def allow (w : Watch) : MergeCall → Prop
  | .lock => w.held = false
  | .unlock => w.held = true
  | _ => True

def next (w : Watch) : Exchange MergeCall MergeCall.Answer → Watch
  | ⟨.lock, _⟩ => { w with held := true }
  | ⟨.unlock, _⟩ => { w with held := false }
  | ⟨.interrupted, b⟩ => { w with stopped := w.stopped || b }
  | ⟨.repository _, _⟩ | ⟨.write _, _⟩ => w

/-- A part of a merge that leaves the lock alone and hears of no interrupt. -/
abbrev Quiet {α : Type} (w : Watch) (P : α → Prop) (d : Talk α) := Safe allow next (fun w' a => w' = w ∧ P a) w d

theorem returnTo_quiet (w : Watch) (head : String) : Quiet w (fun _ => True) (returnTo head) := by
  refine ⟨trivial, ?_⟩
  rintro (e | now)
  · exact ⟨rfl, trivial⟩
  · exact Safe.ite (fun _ => ⟨rfl, trivial⟩) fun _ => ⟨trivial, fun _ => ⟨rfl, trivial⟩⟩

theorem rollback_quiet (w : Watch) (head : String) (c : Bool) : Quiet w (fun _ => True) (rollback head c) := by
  refine ⟨trivial, ?_⟩
  rintro (e | ⟨⟩)
  · refine Safe.ite (fun _ => ?_) fun _ => ?_
    · exact ⟨trivial, fun _ => ⟨trivial, fun _ => ⟨rfl, trivial⟩⟩⟩
    · exact ⟨trivial, fun _ => returnTo_quiet w head⟩
  · exact returnTo_quiet w head

theorem attempt_quiet (w : Watch) (head branch message : String) :
    Quiet w (· ≠ .ok .interrupted) (attempt head branch message) := by
  refine ⟨trivial, ?_⟩
  rintro (e | (_ | files))
  · refine ⟨trivial, fun _ => (rollback_quiet w head false).andThen ?_⟩
    rintro _ (e | ⟨⟩) ⟨rfl, -⟩
    · exact ⟨rfl, by simp⟩
    · exact ⟨rfl, by simp⟩
  · exact ⟨trivial, fun _ => ⟨rfl, by simp⟩⟩
  · refine ⟨trivial, fun _ => (rollback_quiet w head true).andThen ?_⟩
    rintro _ (e | ⟨⟩) ⟨rfl, -⟩
    · exact ⟨rfl, by simp⟩
    · exact ⟨rfl, by simp⟩

theorem restore_quiet (w : Watch) (head : String) : Quiet w (fun _ => True) (restore head) := by
  refine ⟨trivial, ?_⟩
  rintro (e | ⟨⟩)
  · exact ⟨rfl, trivial⟩
  · refine ⟨trivial, ?_⟩
    rintro (e | ⟨⟩)
    · exact ⟨rfl, trivial⟩
    · exact ⟨rfl, trivial⟩

theorem bringBack_quiet (w : Watch) (head : String) (paths : List String) {result : Except Failure MergeOutcome}
    (hr : result ≠ .ok .interrupted) : Quiet w (· ≠ .ok .interrupted) (bringBack head paths result) := by
  refine ⟨trivial, ?_⟩
  rintro (e | ⟨⟩)
  · refine ⟨trivial, fun _ => (restore_quiet w head).andThen ?_⟩
    rintro _ (e' | ⟨⟩) ⟨rfl, -⟩
    · exact ⟨rfl, by simp⟩
    · match result with
      | .ok .merged => exact ⟨rfl, by simp⟩
      | .ok (.conflict _) => exact ⟨rfl, hr⟩
      | .ok .interrupted => exact absurd rfl hr
      | .error _ => exact ⟨rfl, hr⟩
  · exact ⟨rfl, hr⟩

theorem withoutChanges_quiet (w : Watch) (v : Workspace) (message head : String) (paths : List String) :
    Quiet w (· ≠ .ok .interrupted) (withoutChanges v message head paths) := by
  refine Safe.ite (fun _ => attempt_quiet w head v.branch message) fun _ => ⟨trivial, ?_⟩
  rintro (e | ⟨⟩)
  · exact ⟨rfl, by simp⟩
  · refine ⟨trivial, fun _ => (attempt_quiet w head v.branch message).andThen ?_⟩
    rintro _ result ⟨rfl, hr⟩
    exact bringBack_quiet _ head paths hr

theorem around_quiet (w : Watch) (x : Exclusions) (v : Workspace) (message head : String) :
    Quiet w (· ≠ .ok .interrupted) (around x v message head) := by
  refine ⟨trivial, ?_⟩
  rintro (e | files)
  · exact ⟨rfl, by simp⟩
  · refine ⟨trivial, fun present => Safe.ite (fun _ => ?_) fun _ => ⟨trivial, fun _ => ?_⟩⟩
    · exact withoutChanges_quiet w v message head _
    · exact withoutChanges_quiet w v message head _

theorem underLock_safe (w : Watch) (hw : w.held = true) (x : Exclusions) (v : Workspace) (message : String) :
    Safe allow next (fun w' r => w'.held = true ∧ (r = .ok .interrupted → w'.stopped = true)) w
      (underLock x v message) := by
  refine ⟨trivial, ?_⟩
  rintro (_ | _)
  · refine ⟨trivial, ?_⟩
    rintro (e | head)
    · exact ⟨hw, by simp⟩
    · refine (around_quiet _ x v message head).mono ?_
      rintro _ r ⟨rfl, hr⟩
      exact ⟨hw, fun h => absurd h hr⟩
  · exact ⟨trivial, fun _ => ⟨hw, fun _ => Bool.or_true _⟩⟩

theorem integrate_safe (w : Watch) (hw : w.held = false) (x : Exclusions) (v : Workspace) (message : String) :
    Safe allow next (fun w' r => w'.held = false ∧ (r = .ok .interrupted → w'.stopped = true)) w
      (integrate x v message) := by
  refine ⟨hw, fun _ => (underLock_safe { w with held := true } rfl x v message).andThen ?_⟩
  rintro w' r ⟨hw', hr⟩
  exact ⟨hw', fun _ => ⟨rfl, hr⟩⟩

/-! ### How much a merge asks -/

theorem returnTo_within (head : String) : (returnTo head).Within 2 := by
  rintro (e | now)
  · trivial
  · exact Within.ite (fun _ => trivial) fun _ _ => trivial

theorem rollback_within (head : String) (c : Bool) : (rollback head c).Within 4 := by
  rintro (e | ⟨⟩)
  · exact Within.ite (fun _ _ _ => trivial) fun _ _ => returnTo_within head
  · exact Within.mono (m := 2) (returnTo_within head) (by decide)

theorem attempt_within (head branch message : String) : (attempt head branch message).Within 6 := by
  rintro (e | (_ | files))
  · exact fun _ => (rollback_within head false).andThen (n := 0) (by rintro (e | ⟨⟩) <;> trivial)
  · exact fun _ => trivial
  · exact fun _ => (rollback_within head true).andThen (n := 0) (by rintro (e | ⟨⟩) <;> trivial)

theorem restore_within (head : String) : (restore head).Within 2 := by
  rintro (e | ⟨⟩)
  · trivial
  · rintro (e | ⟨⟩) <;> trivial

theorem bringBack_within (head : String) (paths : List String) (result : Except Failure MergeOutcome) :
    (bringBack head paths result).Within 4 := by
  rintro (e | ⟨⟩)
  · refine fun _ => (restore_within head).andThen (n := 0) ?_
    rintro (e | ⟨⟩)
    · trivial
    · match result with
      | .ok .merged | .ok (.conflict _) | .ok .interrupted | .error _ => trivial
  · trivial

theorem withoutChanges_within (v : Workspace) (message head : String) (paths : List String) :
    (withoutChanges v message head paths).Within 12 := by
  refine Within.ite (fun _ => (attempt_within head v.branch message).mono (by omega)) fun _ => ?_
  rintro (e | ⟨⟩)
  · trivial
  · exact fun _ => (attempt_within head v.branch message).andThen fun result => bringBack_within head paths result

theorem around_within (x : Exclusions) (v : Workspace) (message head : String) :
    (around x v message head).Within 15 := by
  rintro (e | files)
  · trivial
  · refine fun present => Within.ite (fun _ => ?_) fun _ _ => ?_
    · exact Within.mono (m := 12) (withoutChanges_within v message head _) (by decide)
    · exact withoutChanges_within v message head _

theorem underLock_within (x : Exclusions) (v : Workspace) (message : String) :
    (underLock x v message).Within 17 := by
  rintro (_ | _)
  · rintro (e | head)
    · trivial
    · exact around_within x v message head
  · exact fun _ => trivial

theorem integrate_within (x : Exclusions) (v : Workspace) (message : String) :
    (integrate x v message).Within 19 :=
  fun _ => (underLock_within x v message).andThen (n := 1) fun _ _ => trivial

end Merge

end WorkWaves
