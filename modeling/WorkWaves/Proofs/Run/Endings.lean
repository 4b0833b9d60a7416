import WorkWaves.Proofs.Merge.Interleaving
import WorkWaves.Run.Worker

/-!
# How a worker ends its item

`course_of_leads` says what a worker can ask and hear from its first question to its outcome. What becomes of the item
is read off it: the item is interrupted exactly if the worker had begun, and was cut off while its fixer ran or heard
of the interrupt with the lock in its hands (`interrupted_iff_of_leads`). Once its merge has landed, or its commit
found nothing to merge, it is completed (`completed_of_leads`).
-/

namespace WorkWaves

open Dialogue

/-! ### The course of a merge -/

namespace Merge

theorem Phase.foldl_next_ne_waiting (h : List (Exchange MergeCall MergeCall.Answer)) {p : Phase} (hp : p ≠ waiting) :
    h.foldl next p ≠ waiting := by
  induction h generalizing p with
  | nil => exact hp
  | cons x h ih =>
    refine ih ?_
    obtain ⟨c, a⟩ := x
    cases c with
    | lock | unlock => simp [next]
    | interrupted | repository _ | write _ => exact hp

/-- A merge asks for the lock first and only once. With the lock it asks whether to stop, and it is interrupted exactly
if it is to. -/
theorem course_of_leads {x : Exclusions} {v : Workspace} {message : String}
    {h : List (Exchange MergeCall MergeCall.Answer)} {r : Except Failure MergeOutcome}
    (hd : Leads (integrate x v message) h (.done r)) :
    ∃ b t, h = ⟨.lock, ()⟩ :: ⟨.interrupted, b⟩ :: t ∧ (∀ y ∈ t, y.1 ≠ .lock) ∧ (r = .ok .interrupted ↔ b = true) ∧
      (b = false → ∃ a t', t = ⟨.repository .head, a⟩ :: t') := by
  obtain ⟨mid, rfl, hmid⟩ := ends_of_leads hd
  obtain ⟨b, t, rfl, ht⟩ := Leads.ask_done.mp hmid
  refine ⟨b, t ++ [⟨.unlock, ()⟩], rfl, fun y hy hl => ?_, ?_, ?_⟩
  · obtain ⟨pre, post, hs⟩ := List.append_of_mem hy
    have hcourse :
        Leads (integrate x v message) ((⟨.lock, ()⟩ :: ⟨.interrupted, b⟩ :: pre) ++ y :: post) (.done r) := by
      rw [List.cons_append, List.cons_append, ← hs]
      exact hd
    have hallow := (Phase.integrate_safe x v message).allowed hcourse
    have hne := Phase.foldl_next_ne_waiting pre (p := .holding) (by simp)
    rw [hl] at hallow
    change Phase.allow (pre.foldl Phase.next .holding) .lock at hallow
    generalize pre.foldl Phase.next .holding = p at hallow hne
    cases p with
    | waiting => exact hne rfl
    | holding => exact hallow rfl
    | finished => exact hallow
  · match b, ht with
    | true, ht =>
      obtain ⟨⟨⟩, u, rfl, hu⟩ := Leads.ask_done.mp ht
      obtain ⟨rfl, rfl⟩ := Leads.done_done.mp hu
      exact ⟨fun _ => rfl, fun _ => rfl⟩
    | false, ht =>
      refine ⟨fun hr => ?_, fun hb => by cases hb⟩
      subst hr
      obtain ⟨a, u, rfl, hu⟩ := Leads.ask_done.mp ht
      rcases a with e | head
      · have := (Leads.done_done.mp hu).2
        cases this
      · exact absurd rfl ((around_quiet {} x v message head).leads hu).2
  · rintro rfl
    obtain ⟨a, u, rfl, -⟩ := Leads.ask_done.mp ht
    exact ⟨a, _, rfl⟩

end Merge

namespace Worker

/-- What a worker asked and heard. -/
abbrev Past := List (Exchange WorkerCall WorkerCall.Answer)

/-- It heard of an interrupt before it began. -/
def Declined (past : Past) : Prop := past.head? = some ⟨.interrupted, true⟩

/-- It passed the check at its start. -/
def Began (past : Past) : Prop := past.head? = some ⟨.interrupted, false⟩

/-- An interrupt came while its fixer ran. -/
def CutOff (past : Past) : Prop := ∃ r, ⟨.fix r, FixEnd.interrupted⟩ ∈ past

/-- It heard of an interrupt when it had got the lock. -/
def Refused (past : Past) : Prop := [⟨.lock, ()⟩, ⟨.interrupted, true⟩] <:+: past

/-- Its commit reported that nothing was changed. -/
def Unchanged (past : Past) : Prop :=
  ∃ w message, ⟨.errand (.commit w message), (.ok false : Except Failure Bool)⟩ ∈ past

/-- The merge of the branch of a workspace, as the worker of an item asks for it. -/
def merging (s : Setting) (item : Item) (w : Workspace) : Talk (Except Failure MergeOutcome) :=
  (Merge.integrate s.exclusions w ("Merge " ++ w.branch ++ " (" ++ item.id ++ ")")).within (mergeCall w)

/-- Its merge returned that the branch is merged. -/
def Landed (s : Setting) (item : Item) (past : Past) : Prop :=
  ∃ w mid, mid <:+: past ∧ Leads (merging s item w) mid (.done (.ok .merged))

/-! ### The merge inside -/

/-- An exchange of a merge, as the worker has it. -/
def relay (w : Workspace) : Exchange MergeCall MergeCall.Answer → Exchange WorkerCall WorkerCall.Answer
  | ⟨.lock, a⟩ => ⟨.lock, a⟩
  | ⟨.unlock, a⟩ => ⟨.unlock, a⟩
  | ⟨.interrupted, b⟩ => ⟨.interrupted, b⟩
  | ⟨.repository c, a⟩ => ⟨.errand (.repository w c), a⟩
  | ⟨.write r, a⟩ => ⟨.write (r.within (Merge.span w)), a⟩

theorem eq_relay_of_leads {w : Workspace} {c : MergeCall} {h : Past} {r : c.Answer}
    (hd : Leads (mergeCall w c) h (.done r)) : h = [relay w ⟨c, r⟩] := by
  cases c with
  | lock | unlock | interrupted | repository _ | write _ =>
    obtain ⟨_, _, rfl, ht⟩ := Leads.ask_done.mp hd
    obtain ⟨rfl, rfl⟩ := Leads.done_done.mp ht
    rfl

theorem exists_of_leads_within {α : Type} {w : Workspace} {d : Merge.Talk α} {h : Past} {a : α}
    (hd : Leads (d.within (mergeCall w)) h (.done a)) : ∃ g, Leads d g (.done a) ∧ h = g.map (relay w) := by
  induction d generalizing h with
  | done b =>
    obtain ⟨rfl, rfl⟩ := Leads.done_done.mp hd
    exact ⟨[], .refl _, rfl⟩
  | ask c k ih =>
    obtain ⟨r, h₁, h₂, rfl, hc, hk⟩ := Leads.andThen_done.mp hd
    obtain ⟨g, hg, rfl⟩ := ih r hk
    rw [eq_relay_of_leads hc]
    exact ⟨⟨c, r⟩ :: g, .ask hg, rfl⟩

/-- What does not occur in a merge apart from its first question. -/
def Outside : Exchange WorkerCall WorkerCall.Answer → Prop
  | ⟨.lock, _⟩ | ⟨.fix _, _⟩ | ⟨.errand (.commit _ _), _⟩ => True
  | _ => False

theorem not_outside_relay {w : Workspace} {x : Exchange MergeCall MergeCall.Answer} (hx : x.1 ≠ .lock) :
    ¬ Outside (relay w x) := by
  obtain ⟨c, a⟩ := x
  cases c with
  | lock => exact absurd rfl hx
  | unlock | interrupted | repository _ | write _ => exact id

theorem course_of_merging {s : Setting} {item : Item} {w : Workspace} {h : Past} {r : Except Failure MergeOutcome}
    (hd : Leads (merging s item w) h (.done r)) :
    ∃ b t, h = ⟨.lock, ()⟩ :: ⟨.interrupted, b⟩ :: t ∧ (∀ y ∈ t, ¬ Outside y) ∧ (r = .ok .interrupted ↔ b = true) ∧
      (b = false → ∃ a t', t = ⟨.errand (.repository w .head), a⟩ :: t') := by
  obtain ⟨g, hg, rfl⟩ := exists_of_leads_within hd
  obtain ⟨b, t, rfl, ht, hr, hhead⟩ := Merge.course_of_leads hg
  refine ⟨b, t.map (relay w), rfl, fun y hy => ?_, hr, fun hb => ?_⟩
  · obtain ⟨x, hx, rfl⟩ := List.mem_map.mp hy
    exact not_outside_relay (ht x hx)
  · obtain ⟨a, t', rfl⟩ := hhead hb
    exact ⟨a, _, rfl⟩

/-! ### The whole course -/

theorem leads_call {β : Type} {c : WorkerCall} {f : c.Answer → Talk β} {h : Past} {b : β} :
    Leads ((call c).andThen f) h (.done b) ↔ ∃ r t, h = ⟨c, r⟩ :: t ∧ Leads (f r) t (.done b) :=
  Leads.ask_done

/-- What a worker can ask and hear in its workspace, and how the item can end then. -/
inductive Labour (s : Setting) (item : Item) (w : Workspace) : Past → End → Prop
  | cutOff {e : End} (he : e.status = .interrupted) :
      Labour s item w [⟨.fix (request item w), FixEnd.interrupted⟩] e
  | unfixed {a : FixEnd} {e : End} (ha : a ≠ .interrupted) (he : e.status = .failed ∨ e.status = .timeout) :
      Labour s item w [⟨.fix (request item w), a⟩] e
  | uncommitted {r : FixResult} {message : String} {f : Failure} {e : End} (he : e.status = .failed) :
      Labour s item w [⟨.fix (request item w), FixEnd.finished r⟩,
        ⟨.errand (.commit w message), (.error f : Except Failure Bool)⟩] e
  | unchanged {r : FixResult} {message : String} {e : End} (he : e.status = .completed) :
      Labour s item w [⟨.fix (request item w), FixEnd.finished r⟩,
        ⟨.errand (.commit w message), (.ok false : Except Failure Bool)⟩] e
  | merged {r : FixResult} {message : String} {h : Past} {res : Except Failure MergeOutcome}
      (hm : Leads (merging s item w) h (.done res)) :
      Labour s item w (⟨.fix (request item w), FixEnd.finished r⟩ ::
        ⟨.errand (.commit w message), (.ok true : Except Failure Bool)⟩ :: h) (.ofMerge res)

variable {s : Setting} {item : Item} {w : Workspace} {h past : Past} {e : End} {o : Outcome}

/-- A fixer that finished with success has its work recorded; else the item ends there. -/
theorem fixAndRecord_split (hd : Leads (fixAndRecord s item w) h (.done e)) :
    ∃ a t, h = ⟨.fix (request item w), a⟩ :: t ∧ match a with
      | .interrupted => t = [] ∧ e.status = .interrupted
      | .timedOut => t = [] ∧ e.status = .timeout
      | .failed _ => t = [] ∧ e.status = .failed
      | .finished r => if r.success then Leads (record s item w) t (.done e) else t = [] ∧ e.status = .failed := by
  obtain ⟨a, t, rfl, ht⟩ := leads_call.mp hd
  refine ⟨a, t, rfl, ?_⟩
  match a, ht with
  | .interrupted, ht | .timedOut, ht | .failed f, ht =>
    obtain ⟨rfl, rfl⟩ := Leads.done_done.mp ht
    exact ⟨rfl, rfl⟩
  | .finished r, ht =>
    replace ht : Leads (if r.success then record s item w else .done (.unfixed r)) t (.done e) := ht
    dsimp only
    split
    · next hr => rwa [if_pos hr] at ht
    · next hr =>
      rw [if_neg hr] at ht
      obtain ⟨rfl, rfl⟩ := Leads.done_done.mp ht
      exact ⟨rfl, rfl⟩

/-- What was committed is merged. -/
theorem record_split (hd : Leads (record s item w) h (.done e)) :
    ∃ message c t, h = ⟨.errand (.commit w message), c⟩ :: t ∧ match c with
      | .error _ => t = [] ∧ e.status = .failed
      | .ok false => t = [] ∧ e.status = .completed
      | .ok true => ∃ res, Leads (merging s item w) t (.done res) ∧ e = .ofMerge res := by
  obtain ⟨c, t, rfl, ht⟩ := leads_call.mp hd
  refine ⟨_, c, t, rfl, ?_⟩
  match c, ht with
  | .error f, ht | .ok false, ht =>
    obtain ⟨rfl, rfl⟩ := Leads.done_done.mp ht
    exact ⟨rfl, rfl⟩
  | .ok true, ht =>
    obtain ⟨res, h₁, h₂, rfl, hm, hres⟩ := Leads.andThen_done.mp ht
    obtain ⟨rfl, rfl⟩ := Leads.done_done.mp hres
    rw [List.append_nil]
    exact ⟨res, hm, rfl⟩

theorem labour_of_leads (hd : Leads (fixAndRecord s item w) h (.done e)) : Labour s item w h e := by
  obtain ⟨a, t, rfl, ht⟩ := fixAndRecord_split hd
  cases a with
  | interrupted =>
    obtain ⟨rfl, he⟩ := ht
    exact .cutOff he
  | timedOut =>
    obtain ⟨rfl, he⟩ := ht
    exact .unfixed (by simp) (.inr he)
  | failed f =>
    obtain ⟨rfl, he⟩ := ht
    exact .unfixed (by simp) (.inl he)
  | finished r =>
    dsimp only at ht
    split at ht
    · obtain ⟨message, f | (_ | _), u, rfl, hu⟩ := record_split ht
      · obtain ⟨rfl, he⟩ := hu
        exact .uncommitted he
      · obtain ⟨rfl, he⟩ := hu
        exact .unchanged he
      · obtain ⟨res, hm, rfl⟩ := hu
        exact .merged hm
    · obtain ⟨rfl, he⟩ := ht
      exact .unfixed (by simp) (.inl he)

/-- An exchange that says nothing about how the item ends. -/
def Plain : Exchange WorkerCall WorkerCall.Answer → Prop
  | ⟨.time, _⟩ | ⟨.tell _, _⟩ | ⟨.write _, _⟩ | ⟨.errand (.create _), _⟩ | ⟨.errand (.remove _), _⟩ => True
  | ⟨.interrupted, b⟩ => b = false
  | _ => False

/-- What a worker can ask and hear, and the outcome that it can return then. -/
inductive Course (s : Setting) (item : Item) : Past → Outcome → Prop
  | declined : Course s item [⟨.interrupted, true⟩] (.notStarted item.id s.waveIndex)
  | homeless {before : Past} {o : Outcome} (hb : ∀ x ∈ before, Plain x) (ho : o.status = .failed) :
      Course s item (⟨.interrupted, false⟩ :: before) o
  | worked {before h after : Past} {w : Workspace} {e : End} {o : Outcome} (hb : ∀ x ∈ before, Plain x)
      (hw : Labour s item w h e) (ha : ∀ x ∈ after, Plain x) (ho : o.status = e.status) :
      Course s item (⟨.interrupted, false⟩ :: before ++ h ++ after) o

/-- How the work in a workspace is closed. -/
inductive Parting (s : Setting) (w : Workspace) (e : End) : Past → Prop
  | kept (hk : keeps s e = true) (r : LogRecord) : Parting s w e [⟨.write r, ()⟩]
  | removed (hk : keeps s e = false) :
      Parting s w e [⟨.errand (.remove w), (.ok () : Except Failure Unit)⟩]
  | stuck (hk : keeps s e = false) (f : Failure) (r : LogRecord) :
      Parting s w e [⟨.errand (.remove w), (.error f : Except Failure Unit)⟩, ⟨.write r, ()⟩]

/-- Without a workspace the item has failed; in one, the worker toils and parts from it. -/
theorem execute_split (hd : Leads (execute s item) h (.done e)) :
    (∃ f, h = [⟨.errand (.create item.id), (.error f : Except Failure Workspace)⟩] ∧ e.status = .failed) ∨
    ∃ w r g t, h = ⟨.errand (.create item.id), (.ok w : Except Failure Workspace)⟩ :: ⟨.write r, ()⟩ :: g ++ t ∧
      Leads (fixAndRecord s item w) g (.done e) ∧ Parting s w e t := by
  obtain ⟨c, t, rfl, ht⟩ := leads_call.mp hd
  rcases c with f | w
  · obtain ⟨rfl, rfl⟩ := Leads.done_done.mp ht
    exact .inl ⟨f, rfl, rfl⟩
  · obtain ⟨⟨⟩, u, rfl, hu⟩ := leads_call.mp ht
    obtain ⟨e', g, t, rfl, hg, hrest⟩ := Leads.andThen_done.mp hu
    refine .inr ⟨w, _, g, t, rfl, ?_⟩
    cases hk : keeps s e' with
    | true =>
      rw [if_pos hk] at hrest
      obtain ⟨⟨⟩, v, rfl, hv⟩ := leads_call.mp hrest
      obtain ⟨rfl, rfl⟩ := Leads.done_done.mp hv
      exact ⟨hg, .kept hk _⟩
    | false =>
      rw [if_neg (Bool.eq_false_iff.mp hk)] at hrest
      obtain ⟨a, v, rfl, hv⟩ := leads_call.mp hrest
      rcases a with f | ⟨⟩
      · obtain ⟨⟨⟩, v', rfl, hv'⟩ := leads_call.mp hv
        obtain ⟨rfl, rfl⟩ := Leads.done_done.mp hv'
        exact ⟨hg, .stuck hk f _⟩
      · obtain ⟨rfl, rfl⟩ := Leads.done_done.mp hv
        exact ⟨hg, .removed hk⟩

theorem Parting.plain {t : Past} (ht : Parting s w e t) : ∀ x ∈ t, Plain x := by
  cases ht with
  | kept | removed | stuck => simp [Plain]

/-- A worker that begins looks at the clock before and after. -/
theorem work_split (hd : Leads (work s item) past (.done o)) :
    past = [⟨.interrupted, true⟩] ∧ o = .notStarted item.id s.waveIndex ∨ ∃ start stop h e r,
      past = [⟨.interrupted, false⟩, ⟨.time, start⟩, ⟨.tell (.itemStart item.id s.waveIndex), ()⟩] ++ h ++
        [⟨.time, stop⟩, ⟨.write r, ()⟩, ⟨.tell (.itemEnd o), ()⟩] ∧
      o = outcome s item e (stop - start) ∧ Leads (execute s item) h (.done e) := by
  obtain ⟨b, t, rfl, ht⟩ := leads_call.mp hd
  match b, ht with
  | true, ht =>
    obtain ⟨rfl, rfl⟩ := Leads.done_done.mp ht
    exact .inl ⟨rfl, rfl⟩
  | false, ht =>
    obtain ⟨start, u, rfl, hu⟩ := leads_call.mp ht
    obtain ⟨⟨⟩, v, rfl, hv⟩ := leads_call.mp hu
    obtain ⟨e, h, last, rfl, hexec, hlast⟩ := Leads.andThen_done.mp hv
    obtain ⟨stop, _, rfl, hwrite⟩ := leads_call.mp hlast
    dsimp only at hwrite
    obtain ⟨⟨⟩, _, rfl, htell⟩ := leads_call.mp hwrite
    obtain ⟨⟨⟩, _, rfl, hdone⟩ := leads_call.mp htell
    obtain ⟨rfl, rfl⟩ := Leads.done_done.mp hdone
    exact .inr ⟨start, stop, h, e, _, rfl, rfl, hexec⟩

theorem course_of_leads (hd : Leads (work s item) past (.done o)) : Course s item past o := by
  rcases work_split hd with ⟨rfl, rfl⟩ | ⟨start, stop, h, e, r, rfl, ho, hexec⟩
  · exact .declined
  have hstatus : o.status = e.status := by rw [ho, outcome]
  rcases execute_split hexec with ⟨f, rfl, he⟩ | ⟨w, r', g, t, rfl, hg, ht⟩
  · exact .homeless (by simp [Plain]) (hstatus.trans he)
  · have hcourse : Course s item (⟨.interrupted, false⟩ ::
        [⟨.time, start⟩, ⟨.tell (.itemStart item.id s.waveIndex), ()⟩,
          ⟨.errand (.create item.id), (.ok w : Except Failure Workspace)⟩, ⟨.write r', ()⟩] ++
        g ++ (t ++ [⟨.time, stop⟩, ⟨.write r, ()⟩, ⟨.tell (.itemEnd o), ()⟩])) o :=
      .worked (by simp [Plain]) (labour_of_leads hg)
        (List.forall_mem_append.mpr ⟨ht.plain, by simp [Plain]⟩) hstatus
    simpa only [List.cons_append, List.nil_append, List.append_assoc] using hcourse

/-! ### What becomes of the item -/

theorem Plain.not_outside {x : Exchange WorkerCall WorkerCall.Answer} (h : Plain x) : ¬ Outside x := by
  obtain ⟨c, a⟩ := x
  cases c with
  | interrupted | time | tell _ | write _ | unlock => exact id
  | lock | fix _ => exact h.elim
  | errand e =>
    cases e with
    | create _ | remove _ | repository _ _ => exact id
    | commit _ _ => exact h.elim

/-- What matters stands between what does not. -/
theorem mem_of_outside {before after : Past} (hb : ∀ x ∈ before, Plain x) (ha : ∀ x ∈ after, Plain x)
    {x : Exchange WorkerCall WorkerCall.Answer} (hx : Outside x)
    (hmem : x ∈ ⟨.interrupted, false⟩ :: before ++ h ++ after) : x ∈ h := by
  rcases List.mem_append.mp hmem with hmem | hmem
  · rcases List.mem_append.mp hmem with hmem | hmem
    · rcases List.mem_cons.mp hmem with rfl | hmem
      · exact hx.elim
      · exact absurd hx (hb x hmem).not_outside
    · exact hmem
  · exact absurd hx (ha x hmem).not_outside

theorem not_mem_merging {r : Except Failure MergeOutcome} (hd : Leads (merging s item w) h (.done r))
    {x : Exchange WorkerCall WorkerCall.Answer} (hx : Outside x) (hl : x.1 ≠ .lock) : x ∉ h := by
  obtain ⟨b, t, rfl, ht, -⟩ := course_of_merging hd
  intro hmem
  rcases List.mem_cons.mp hmem with rfl | hmem
  · exact hl rfl
  rcases List.mem_cons.mp hmem with rfl | hmem
  · exact hx
  · exact ht x hmem hx

theorem Labour.cutOff_iff (hw : Labour s item w h e) (hl : ⟨.lock, ()⟩ ∉ h) :
    e.status = .interrupted ↔ CutOff h := by
  cases hw with
  | cutOff he => exact ⟨fun _ => ⟨_, List.mem_singleton_self _⟩, fun _ => he⟩
  | unfixed ha he =>
    refine ⟨fun hi => ?_, ?_⟩
    · rw [hi] at he
      simp at he
    · rintro ⟨r, hr⟩
      cases List.mem_singleton.mp hr
      exact absurd rfl ha
  | uncommitted he => exact ⟨fun hi => (by rw [he] at hi; cases hi), fun ⟨_, hr⟩ => nomatch hr⟩
  | unchanged he => exact ⟨fun hi => (by rw [he] at hi; cases hi), fun ⟨_, hr⟩ => nomatch hr⟩
  | merged hm =>
    obtain ⟨b, t, rfl, -⟩ := course_of_merging hm
    simp at hl

theorem Labour.merged_of_lock (hw : Labour s item w h e) (hl : ⟨.lock, ()⟩ ∈ h) :
    ∃ r message g res, h = ⟨.fix (request item w), FixEnd.finished r⟩ ::
      ⟨.errand (.commit w message), (.ok true : Except Failure Bool)⟩ :: g ∧
      Leads (merging s item w) g (.done res) ∧ e = .ofMerge res := by
  cases hw with
  | cutOff | unfixed | uncommitted | unchanged => exact nomatch hl
  | merged hm => exact ⟨_, _, _, _, rfl, hm, rfl⟩

theorem Labour.completed (hw : Labour s item w h e) (hu : Unchanged h) : e.status = .completed := by
  obtain ⟨v, message, hu⟩ := hu
  cases hw with
  | unchanged he => exact he
  | cutOff | unfixed | uncommitted => exact nomatch hu
  | merged hm =>
    rcases List.mem_cons.mp hu with hu | hu
    · cases hu
    rcases List.mem_cons.mp hu with hu | hu
    · cases hu
    · exact absurd hu (not_mem_merging hm trivial (by simp))

theorem status_ofMerge {res : Except Failure MergeOutcome} :
    (End.ofMerge res).status = .interrupted ↔ res = .ok .interrupted := by
  rcases res with f | (_ | files | _) <;> simp [End.ofMerge, End.fixed]

/-- A course with a merge, in which the worker asks for the lock once, and `b` is whether it is to stop then. -/
structure Merges (s : Setting) (item : Item) (past : Past) (o : Outcome) (before : Past) (w : Workspace) (b : Bool)
    (t after : Past) (res : Except Failure MergeOutcome) : Prop where
  past_eq : past = before ++ ⟨.lock, ()⟩ :: (⟨.interrupted, b⟩ :: t ++ after)
  began : Began past
  notBefore : ⟨.lock, ()⟩ ∉ before
  notAgain : ⟨.lock, ()⟩ ∉ ⟨.interrupted, b⟩ :: t ++ after
  merge : Leads (merging s item w) (⟨.lock, ()⟩ :: ⟨.interrupted, b⟩ :: t) (.done res)
  refused : res = .ok .interrupted ↔ b = true
  head : b = false → ∃ a t', t = ⟨.errand (.repository w .head), a⟩ :: t'
  status : o.status = (End.ofMerge res).status
  unCut : ¬ CutOff past

/-- The worker asks for the lock once, so what follows the lock is known. -/
theorem Merges.eq_of_lock {before t after : Past} {b : Bool} {res : Except Failure MergeOutcome}
    (h : Merges s item past o before w b t after res) {pre post : Past} (he : past = pre ++ ⟨.lock, ()⟩ :: post) :
    ⟨.interrupted, b⟩ :: t ++ after = post :=
  ((List.append_cons_inj_of_notMem h.notBefore h.notAgain).mp (h.past_eq.symm.trans he)).2.2

theorem Course.merges_of_lock (hc : Course s item past o) (hl : ⟨.lock, ()⟩ ∈ past) :
    ∃ before w b t after res, Merges s item past o before w b t after res := by
  cases hc with
  | declined => exact nomatch hl
  | homeless hb =>
    rcases List.mem_cons.mp hl with hl | hl
    · cases hl
    · exact (hb _ hl).elim
  | @worked before _ after w e _ hb hw ha ho =>
    obtain ⟨r, message, g, res, rfl, hm, rfl⟩ := hw.merged_of_lock (mem_of_outside hb ha trivial hl)
    obtain ⟨b, t, rfl, ht, hr, hhead⟩ := course_of_merging hm
    refine ⟨⟨.interrupted, false⟩ :: before ++ [⟨.fix (request item w), FixEnd.finished r⟩,
      ⟨.errand (.commit w message), (.ok true : Except Failure Bool)⟩], w, b, t, after, res, ?_, rfl, ?_, ?_, hm, hr,
      hhead, ho, ?_⟩
    · simp only [List.cons_append, List.nil_append, List.append_assoc]
    · intro hmem
      rcases List.mem_append.mp hmem with hmem | hmem
      · rcases List.mem_cons.mp hmem with hmem | hmem
        · cases hmem
        · exact (hb _ hmem).elim
      · exact nomatch hmem
    · intro hmem
      rcases List.mem_append.mp hmem with hmem | hmem
      · rcases List.mem_cons.mp hmem with hmem | hmem
        · cases hmem
        · exact ht _ hmem trivial
      · exact (ha _ hmem).elim
    · rintro ⟨f, hf⟩
      have hmem := mem_of_outside (x := ⟨.fix f, FixEnd.interrupted⟩) hb ha trivial hf
      rcases List.mem_cons.mp hmem with hmem | hmem
      · cases hmem
      rcases List.mem_cons.mp hmem with hmem | hmem
      · cases hmem
      · exact not_mem_merging (x := ⟨.fix f, FixEnd.interrupted⟩) hm trivial (by simp) hmem

/-- An item is interrupted exactly if its worker had begun, and was cut off while its fixer ran or heard of an
interrupt when it had got the lock. -/
theorem interrupted_iff_of_leads (hd : Leads (work s item) past (.done o)) :
    o.status = .interrupted ↔ Began past ∧ (CutOff past ∨ Refused past) := by
  have hc := course_of_leads hd
  by_cases hl : ⟨.lock, ()⟩ ∈ past
  · obtain ⟨before, w, b, t, after, res, h⟩ := hc.merges_of_lock hl
    rw [h.status, status_ofMerge, h.refused]
    constructor
    · rintro rfl
      refine ⟨h.began, .inr ⟨before, t ++ after, ?_⟩⟩
      rw [h.past_eq]
      simp
    · rintro ⟨-, hr | ⟨pre, post, hr⟩⟩
      · exact absurd hr h.unCut
      · rw [List.append_assoc] at hr
        injection h.eq_of_lock hr.symm with hb
        cases hb
        rfl
  · have hnot : ¬ Refused past := fun hr => hl (hr.subset (List.mem_cons_self ..))
    cases hc with
    | declined => exact ⟨nofun, fun ⟨hb, _⟩ => nomatch hb⟩
    | homeless hb ho =>
      refine ⟨fun hi => ?_, ?_⟩
      · rw [ho] at hi
        cases hi
      · rintro ⟨-, ⟨r, hr⟩ | hr⟩
        · rcases List.mem_cons.mp hr with hr | hr
          · cases hr
          · exact (hb _ hr).elim
        · exact absurd hr hnot
    | @worked before h after w e _ hb hw ha ho =>
      have hlh : ⟨.lock, ()⟩ ∉ h := fun hmem => hl (by simp [hmem])
      have hcut : CutOff (⟨.interrupted, false⟩ :: before ++ h ++ after) ↔ CutOff h :=
        ⟨fun ⟨r, hr⟩ => ⟨r, mem_of_outside hb ha trivial hr⟩, fun ⟨r, hr⟩ => ⟨r, by simp [hr]⟩⟩
      rw [ho, hw.cutOff_iff hlh, hcut]
      exact ⟨fun hi => ⟨rfl, .inl hi⟩, fun hi => hi.2.resolve_right hnot⟩

theorem Course.completed_of_unchanged (hc : Course s item past o) (hu : Unchanged past) : o.status = .completed := by
  obtain ⟨v, message, hu⟩ := hu
  cases hc with
  | declined => exact nomatch hu
  | homeless hb =>
    rcases List.mem_cons.mp hu with hu | hu
    · cases hu
    · exact (hb _ hu).elim
  | worked hb hw ha ho => exact ho.trans (hw.completed ⟨v, message, mem_of_outside hb ha trivial hu⟩)

theorem Course.completed_of_landed (hc : Course s item past o) (hm : Landed s item past) : o.status = .completed := by
  obtain ⟨v, mid, ⟨pre, post, he⟩, hm⟩ := hm
  obtain ⟨b', t', rfl, -, hr, hhead⟩ := course_of_merging hm
  have he : past = pre ++ ⟨.lock, ()⟩ :: (⟨.interrupted, b'⟩ :: t' ++ post) := by
    rw [← he]
    simp
  obtain ⟨before, w, b, t, after, res, h⟩ := hc.merges_of_lock (by rw [he]; simp)
  have hafter := h.eq_of_lock he
  injection hafter with hb ht
  cases hb
  -- The merge that landed asks for the head of the repository of its workspace, so this is the workspace of the worker.
  have hb : b' = false := Bool.eq_false_iff.mpr fun hb => by cases hr.mpr hb
  obtain ⟨a, u, rfl⟩ := h.head hb
  obtain ⟨a', u', rfl⟩ := hhead hb
  injection ht with hw ht
  cases hw
  replace ht : u ++ after = u' ++ post := ht
  obtain ⟨-, rfl⟩ := h.merge.unique hm (t := after) (u := post) (by simp [ht])
  exact h.status

/-- Once the commit found nothing to merge, or the merge landed, the item is completed. -/
theorem completed_of_leads (hd : Leads (work s item) past (.done o)) (h : Unchanged past ∨ Landed s item past) :
    o.status = .completed := by
  rcases h with hu | hm
  · exact (course_of_leads hd).completed_of_unchanged hu
  · exact (course_of_leads hd).completed_of_landed hm

theorem Labour.isTerminal (hw : Labour s item w h e) : e.status.isTerminal = true := by
  cases hw with
  | cutOff he | uncommitted he | unchanged he =>
    rw [he]
    rfl
  | unfixed _ he =>
    rcases he with he | he
    · rw [he]
      rfl
    · rw [he]
      rfl
  | @merged _ _ _ res =>
    rcases res with f | (_ | files | _)
    · rfl
    · rfl
    · rfl
    · rfl

/-- A worker that heard of an interrupt before it began did not touch the item, and any other one is done with it. -/
theorem declined_or_isTerminal (hd : Leads (work s item) past (.done o)) :
    past = [⟨.interrupted, true⟩] ∧ o.status = .pending ∨ Began past ∧ o.status.isTerminal = true := by
  cases course_of_leads hd with
  | declined => exact .inl ⟨rfl, rfl⟩
  | homeless _ ho => exact .inr ⟨rfl, by rw [ho]; rfl⟩
  | worked _ hw _ ho => exact .inr ⟨rfl, ho ▸ hw.isTerminal⟩

end Worker

end WorkWaves
