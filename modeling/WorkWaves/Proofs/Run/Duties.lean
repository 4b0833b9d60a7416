import WorkWaves.Proofs.Run.Endings
import WorkWaves.Proofs.Run.Staff

/-!
# What a worker has others do

A worker has others do five things: make a workspace, fix, commit, merge, and take the workspace away. `Performs`
reads these duties off what it asked and heard, and `Service` lists all the ways in which they can follow on each
other. So each is done at most once and in this order, and what becomes of the item is seen from how they ended; how
the workspace was taken away does not count (`duties_of_leads`).
-/

namespace WorkWaves

open Dialogue

namespace Worker

/-- Something that a worker has others do, and how it ended. -/
inductive Duty where
  | create (id : String) (r : Except Failure Workspace)
  | fix (q : FixRequest) (a : FixEnd)
  | commit (w : Workspace) (message : String) (r : Except Failure Bool)
  | merge (w : Workspace) (message : String) (r : Except Failure MergeOutcome)
  | remove (w : Workspace) (r : Except Failure Unit)

/-- The kinds of duties. -/
inductive DutyKind where
  | create
  | fix
  | commit
  | merge
  | remove
  deriving DecidableEq, Repr

/-- The order in which duties are done. -/
def DutyKind.inOrder : List DutyKind := [create, fix, commit, merge, remove]

def Duty.kind : Duty → DutyKind
  | create .. => .create
  | fix .. => .fix
  | commit .. => .commit
  | merge .. => .merge
  | remove .. => .remove

/-- The workspace that a duty is about; none for the one that makes it. -/
def Duty.path? : Duty → Option String
  | create .. => none
  | fix q _ => some q.workspace
  | commit w .. | merge w .. | remove w _ => some w.path

/-- An exchange that belongs to no duty. -/
def Aside : Exchange WorkerCall WorkerCall.Answer → Prop
  | ⟨.interrupted, _⟩ | ⟨.time, _⟩ | ⟨.tell _, _⟩ | ⟨.write _, _⟩ => True
  | ⟨.lock, _⟩ | ⟨.unlock, _⟩ | ⟨.fix _, _⟩ | ⟨.errand _, _⟩ => False

/-- What was asked and heard to do some duties. A merge is asked for step by step. -/
inductive Performs (x : Exclusions) : List Duty → Past → Prop
  | nil : Performs x [] []
  | aside {e : Exchange WorkerCall WorkerCall.Answer} {ds : List Duty} {h : Past} (he : Aside e)
      (hd : Performs x ds h) : Performs x ds (e :: h)
  | create {id : String} {r : Except Failure Workspace} {ds : List Duty} {h : Past} (hd : Performs x ds h) :
      Performs x (.create id r :: ds) (⟨.errand (.create id), r⟩ :: h)
  | fix {q : FixRequest} {a : FixEnd} {ds : List Duty} {h : Past} (hd : Performs x ds h) :
      Performs x (.fix q a :: ds) (⟨.fix q, a⟩ :: h)
  | commit {w : Workspace} {message : String} {r : Except Failure Bool} {ds : List Duty} {h : Past}
      (hd : Performs x ds h) : Performs x (.commit w message r :: ds) (⟨.errand (.commit w message), r⟩ :: h)
  | merge {w : Workspace} {message : String} {r : Except Failure MergeOutcome} {ds : List Duty} {g h : Past}
      (hm : Leads ((Merge.integrate x w message).within (mergeCall w)) g (.done r)) (hd : Performs x ds h) :
      Performs x (.merge w message r :: ds) (g ++ h)
  | remove {w : Workspace} {r : Except Failure Unit} {ds : List Duty} {h : Past} (hd : Performs x ds h) :
      Performs x (.remove w r :: ds) (⟨.errand (.remove w), r⟩ :: h)

namespace Performs

variable {x : Exclusions} {ds ds' : List Duty} {h h' : Past}

theorem append (hd : Performs x ds h) (hd' : Performs x ds' h') : Performs x (ds ++ ds') (h ++ h') := by
  induction hd with
  | nil => exact hd'
  | aside he _ ih => exact .aside he ih
  | create _ ih => exact .create ih
  | fix _ ih => exact .fix ih
  | commit _ ih => exact .commit ih
  | merge hm _ ih =>
    rw [List.append_assoc]
    exact .merge hm ih
  | remove _ ih => exact .remove ih

theorem asides (hh : ∀ e ∈ h, Aside e) : Performs x [] h := by
  induction h with
  | nil => exact .nil
  | cons e h ih =>
    obtain ⟨he, hh⟩ := List.forall_mem_cons.mp hh
    exact .aside he (ih hh)

/-- What the fixer is said to have answered was answered. -/
theorem mem_of_fix (hd : Performs x ds h) {q : FixRequest} {a : FixEnd} (hmem : .fix q a ∈ ds) : ⟨.fix q, a⟩ ∈ h := by
  induction hd with
  | nil => cases hmem
  | aside _ _ ih => exact List.mem_cons_of_mem _ (ih hmem)
  | fix _ ih =>
    rcases List.mem_cons.mp hmem with he | hmem
    · cases he
      exact List.mem_cons_self ..
    · exact List.mem_cons_of_mem _ (ih hmem)
  | create _ ih | commit _ ih | remove _ ih =>
    rcases List.mem_cons.mp hmem with he | hmem
    · cases he
    · exact List.mem_cons_of_mem _ (ih hmem)
  | merge _ _ ih =>
    rcases List.mem_cons.mp hmem with he | hmem
    · cases he
    · exact List.mem_append_right _ (ih hmem)

/-- In a merge nothing is taken away. -/
theorem mem_of_remove (hd : Performs x ds h) {w : Workspace} {r : Except Failure Unit}
    (hmem : ⟨.errand (.remove w), r⟩ ∈ h) : .remove w r ∈ ds := by
  induction hd with
  | nil => cases hmem
  | aside he _ ih =>
    rcases List.mem_cons.mp hmem with rfl | hmem
    · exact he.elim
    · exact ih hmem
  | remove _ ih =>
    rcases List.mem_cons.mp hmem with he | hmem
    · cases he
      exact List.mem_cons_self ..
    · exact List.mem_cons_of_mem _ (ih hmem)
  | create _ ih | fix _ ih | commit _ ih =>
    rcases List.mem_cons.mp hmem with he | hmem
    · cases he
    · exact List.mem_cons_of_mem _ (ih hmem)
  | merge hm _ ih =>
    rcases List.mem_append.mp hmem with hmem | hmem
    · obtain ⟨g, -, rfl⟩ := exists_of_leads_within hm
      obtain ⟨⟨c, a⟩, -, he⟩ := List.mem_map.mp hmem
      cases c <;> cases he
    · exact List.mem_cons_of_mem _ (ih hmem)

end Performs

/-! ### The ways in which duties follow on each other -/

/-- The duties in a workspace, and the status in which the item ends. -/
inductive Toil (item : Item) (w : Workspace) : List Duty → Status → Prop
  | cutOff : Toil item w [.fix (request item w) .interrupted] .interrupted
  | timedOut : Toil item w [.fix (request item w) .timedOut] .timeout
  | failed {f : Failure} : Toil item w [.fix (request item w) (.failed f)] .failed
  | unfixed {r : FixResult} (hr : r.exitCode ≠ 0) : Toil item w [.fix (request item w) (.finished r)] .failed
  | uncommitted {r : FixResult} {message : String} {f : Failure} (hr : r.exitCode = 0) :
      Toil item w [.fix (request item w) (.finished r), .commit w message (.error f)] .failed
  | unchanged {r : FixResult} {message : String} (hr : r.exitCode = 0) :
      Toil item w [.fix (request item w) (.finished r), .commit w message (.ok false)] .completed
  | merged {r : FixResult} {message merge : String} {res : Except Failure MergeOutcome} (hr : r.exitCode = 0) :
      Toil item w [.fix (request item w) (.finished r), .commit w message (.ok true), .merge w merge res]
        (End.ofMerge res).status

/-- The duties for an item, and the status in which it ends. -/
inductive Service (s : Setting) (item : Item) : List Duty → Status → Prop
  | homeless {f : Failure} : Service s item [.create item.id (.error f)] .failed
  | kept {w : Workspace} {ds : List Duty} {st : Status} (ht : Toil item w ds st) (hst : st ≠ .completed)
      (hk : s.limits.keepFailed = true) : Service s item (.create item.id (.ok w) :: ds) st
  | cleared {w : Workspace} {ds : List Duty} {st : Status} {r : Except Failure Unit} (ht : Toil item w ds st)
      (hc : st = .completed ∨ s.limits.keepFailed = false) :
      Service s item (.create item.id (.ok w) :: ds ++ [.remove w r]) st

variable {s : Setting} {item : Item} {w : Workspace} {h past : Past} {e : End} {o : Outcome} {ds : List Duty}
  {st : Status}

theorem toil_of_leads (hd : Leads (fixAndRecord s item w) h (.done e)) :
    ∃ ds, Performs s.exclusions ds h ∧ Toil item w ds e.status := by
  obtain ⟨a, t, rfl, ht⟩ := fixAndRecord_split hd
  cases a with
  | interrupted =>
    obtain ⟨rfl, he⟩ := ht
    exact ⟨_, .fix .nil, he ▸ .cutOff⟩
  | timedOut =>
    obtain ⟨rfl, he⟩ := ht
    exact ⟨_, .fix .nil, he ▸ .timedOut⟩
  | failed f =>
    obtain ⟨rfl, he⟩ := ht
    exact ⟨_, .fix .nil, he ▸ .failed⟩
  | finished r =>
    dsimp only at ht
    split at ht
    · next hr =>
      replace hr : r.exitCode = 0 := beq_iff_eq.mp hr
      obtain ⟨message, f | (_ | _), u, rfl, hu⟩ := record_split ht
      · obtain ⟨rfl, he⟩ := hu
        exact ⟨_, .fix (.commit .nil), he ▸ .uncommitted hr⟩
      · obtain ⟨rfl, he⟩ := hu
        exact ⟨_, .fix (.commit .nil), he ▸ .unchanged hr⟩
      · obtain ⟨res, hm, rfl⟩ := hu
        exact ⟨_, .fix (.commit (by simpa using Performs.merge hm .nil)), .merged hr⟩
    · next hr =>
      obtain ⟨rfl, he⟩ := ht
      exact ⟨_, .fix .nil, he ▸ .unfixed fun h0 => hr (beq_iff_eq.mpr h0)⟩

theorem service_of_leads (hd : Leads (execute s item) h (.done e)) :
    ∃ ds, Performs s.exclusions ds h ∧ Service s item ds e.status := by
  rcases execute_split hd with ⟨f, rfl, he⟩ | ⟨w, r, g, t, rfl, hg, ht⟩
  · exact ⟨_, .create .nil, he ▸ .homeless⟩
  · obtain ⟨ds, hp, htoil⟩ := toil_of_leads hg
    have hfront : Performs s.exclusions (.create item.id (.ok w) :: ds)
        (⟨.errand (.create item.id), (.ok w : Except Failure Workspace)⟩ :: ⟨.write r, ()⟩ :: g) :=
      .create (.aside trivial hp)
    cases ht with
    | kept hk r =>
      simp only [keeps, Bool.and_eq_true, bne_iff_ne] at hk
      refine ⟨.create item.id (.ok w) :: ds, ?_, .kept htoil hk.1 hk.2⟩
      simpa using hfront.append (Performs.asides (h := [⟨.write r, ()⟩]) (by simp [Aside]))
    | removed hk =>
      simp only [keeps, Bool.and_eq_false_iff, bne_eq_false_iff_eq] at hk
      exact ⟨_, hfront.append (.remove .nil), .cleared htoil hk⟩
    | stuck hk f r =>
      simp only [keeps, Bool.and_eq_false_iff, bne_eq_false_iff_eq] at hk
      exact ⟨_, hfront.append (.remove (Performs.asides (h := [⟨.write r, ()⟩]) (by simp [Aside]))),
        .cleared htoil hk⟩

/-! ### What the duties say about the item -/

/-- The fixer finished with success, within its time. -/
def Fixed (ds : List Duty) : Prop := ∃ q r, .fix q (.finished r) ∈ ds ∧ r.exitCode = 0

/-- What a worker has others do for an item, and how that decides what becomes of it. -/
structure Dutiful (s : Setting) (item : Item) (ds : List Duty) (o : Outcome) : Prop where
  /-- Each duty is done at most once, and one after the other. -/
  order : (ds.map Duty.kind).Sublist DutyKind.inOrder
  create : ∃ r rest, ds = .create item.id r :: rest
  fix : (∃ q a, .fix q a ∈ ds) ↔ ∃ w, .create item.id (.ok w) ∈ ds
  commit : (∃ w message r, .commit w message r ∈ ds) ↔ Fixed ds
  merge : (∃ w message r, .merge w message r ∈ ds) ↔ ∃ w message, .commit w message (.ok true) ∈ ds
  remove : (∃ w r, .remove w r ∈ ds) ↔
    (∃ w, .create item.id (.ok w) ∈ ds) ∧ (o.status = .completed ∨ s.limits.keepFailed = false)
  /-- All is done in the workspace that was made. -/
  within : ∀ d ∈ ds, ∀ p ∈ d.path?, ∃ w, .create item.id (.ok w) ∈ ds ∧ p = w.path
  completed : o.status = .completed ↔ Fixed ds ∧
    ((∃ w message, .commit w message (.ok false) ∈ ds) ∨ ∃ w message, .merge w message (.ok .merged) ∈ ds)
  timeout : o.status = .timeout ↔ ∃ q, .fix q .timedOut ∈ ds
  interrupted : o.status = .interrupted ↔
    (∃ q, .fix q .interrupted ∈ ds) ∨ ∃ w message, .merge w message (.ok .interrupted) ∈ ds
  otherwise : o.status = .completed ∨ o.status = .timeout ∨ o.status = .interrupted ∨ o.status = .failed

namespace Toil

theorem order (h : Toil item w ds st) : (ds.map Duty.kind).Sublist [.fix, .commit, .merge] := by
  cases h <;> simp [Duty.kind]

theorem fix (h : Toil item w ds st) : ∃ q a, .fix q a ∈ ds := by
  cases h <;> exact ⟨_, _, List.mem_cons_self ..⟩

theorem commit (h : Toil item w ds st) : (∃ v message r, .commit v message r ∈ ds) ↔ Fixed ds := by
  cases h <;> simp_all [Fixed]

theorem merge (h : Toil item w ds st) :
    (∃ v message r, .merge v message r ∈ ds) ↔ ∃ v message, .commit v message (.ok true) ∈ ds := by
  cases h <;> simp

theorem path (h : Toil item w ds st) : ∀ d ∈ ds, ∀ p ∈ d.path?, p = w.path := by
  cases h <;> simp [Duty.path?, request]

theorem kind (h : Toil item w ds st) : ∀ d ∈ ds, d.kind ≠ .create ∧ d.kind ≠ .remove := by
  intro d hd
  have hk := h.order.subset (List.mem_map_of_mem hd)
  constructor
  · intro he
    simp [he] at hk
  · intro he
    simp [he] at hk

theorem status (h : Toil item w ds st) :
    (st = .completed ↔ Fixed ds ∧
      ((∃ v message, .commit v message (.ok false) ∈ ds) ∨ ∃ v message, .merge v message (.ok .merged) ∈ ds)) ∧
    (st = .timeout ↔ ∃ q, .fix q .timedOut ∈ ds) ∧
    (st = .interrupted ↔
      (∃ q, .fix q .interrupted ∈ ds) ∨ ∃ v message, .merge v message (.ok .interrupted) ∈ ds) ∧
    (st = .completed ∨ st = .timeout ∨ st = .interrupted ∨ st = .failed) := by
  cases h with
  | @merged _ _ _ res hr =>
    rcases res with f | (_ | files | _)
    all_goals simp [End.ofMerge, End.fixed, Fixed, hr]
  | cutOff | timedOut | failed | unfixed hr | uncommitted hr | unchanged hr => simp_all [Fixed]

end Toil

/-- What comes before the duties in a workspace and what may come after are of other kinds. -/
theorem mem_middle (item : Item) (ds : List Duty) {rest : List Duty} (hrest : ∀ d ∈ rest, ∃ r, d = .remove w r)
    {d : Duty} (hc : d.kind ≠ .create) (hr : d.kind ≠ .remove) :
    d ∈ .create item.id (.ok w) :: ds ++ rest ↔ d ∈ ds := by
  rw [List.cons_append, List.mem_cons, List.mem_append]
  refine ⟨?_, fun h => .inr (.inl h)⟩
  rintro (rfl | h | h)
  · exact absurd rfl hc
  · exact h
  · obtain ⟨r, rfl⟩ := hrest d h
    exact absurd rfl hr

theorem Toil.dutiful (ht : Toil item w ds o.status) {rest : List Duty} (hrest : ∀ d ∈ rest, ∃ r, d = .remove w r)
    (hlen : rest.length ≤ 1) (hr : rest ≠ [] ↔ (o.status = .completed ∨ s.limits.keepFailed = false)) :
    Dutiful s item (.create item.id (.ok w) :: ds ++ rest) o := by
  have hfix (q : FixRequest) (a : FixEnd) := mem_middle item ds hrest (d := .fix q a) nofun nofun
  have hcommit (v : Workspace) (m : String) (r : Except Failure Bool) :=
    mem_middle item ds hrest (d := .commit v m r) nofun nofun
  have hmerge (v : Workspace) (m : String) (r : Except Failure MergeOutcome) :=
    mem_middle item ds hrest (d := .merge v m r) nofun nofun
  have hhome : ∃ v, .create item.id (.ok v) ∈ .create item.id (.ok w) :: ds ++ rest := ⟨w, List.mem_cons_self ..⟩
  have hfixed : Fixed (.create item.id (.ok w) :: ds ++ rest) ↔ Fixed ds := by
    unfold Fixed
    simp only [hfix]
  obtain ⟨hcompleted, htimeout, hinterrupted, hother⟩ := ht.status
  refine ⟨?_, ⟨_, _, rfl⟩, ?_, ?_, ?_, ?_, ?_, ?_, ?_, ?_, hother⟩
  · rw [List.cons_append, List.map_cons, List.map_append]
    refine (ht.order.append ?_).cons_cons _
    match rest, hrest, hlen with
    | [], _, _ => exact List.nil_sublist _
    | [d], hrest, _ =>
      obtain ⟨r, rfl⟩ := hrest d (List.mem_singleton_self d)
      exact .refl _
  · simp only [hfix]
    exact iff_of_true ht.fix hhome
  · simp only [hcommit, hfixed]
    exact ht.commit
  · simp only [hcommit, hmerge]
    exact ht.merge
  · rw [and_iff_right hhome, ← hr]
    constructor
    · rintro ⟨v, r, hd⟩ rfl
      rw [List.append_nil] at hd
      rcases List.mem_cons.mp hd with hd | hd
      · cases hd
      · exact (ht.kind _ hd).2 rfl
    · intro hne
      obtain ⟨d, hd⟩ := List.exists_mem_of_ne_nil rest hne
      obtain ⟨r, rfl⟩ := hrest d hd
      exact ⟨w, r, List.mem_append_right _ hd⟩
  · intro d hd p hp
    refine ⟨w, List.mem_cons_self .., ?_⟩
    rcases List.mem_append.mp hd with hd | hd
    · rcases List.mem_cons.mp hd with rfl | hd
      · cases hp
      · exact ht.path d hd p hp
    · obtain ⟨r, rfl⟩ := hrest d hd
      exact (Option.mem_some.mp hp).symm
  · simp only [hcommit, hmerge, hfixed]
    exact hcompleted
  · simp only [hfix]
    exact htimeout
  · simp only [hfix, hmerge]
    exact hinterrupted

theorem Service.dutiful (h : Service s item ds o.status) : Dutiful s item ds o := by
  generalize hst : o.status = st at h
  cases h with
  | homeless =>
    refine ⟨?_, ⟨_, _, rfl⟩, ?_, ?_, ?_, ?_, ?_, ?_, ?_, ?_, ?_⟩
    all_goals simp [Duty.kind, DutyKind.inOrder, Fixed, Duty.path?, hst]
  | @kept w ds _ ht hne hk =>
    subst hst
    have hd : Dutiful s item (.create item.id (.ok w) :: ds ++ []) o :=
      ht.dutiful (by simp) (by simp) (by simp [hne, hk])
    rwa [List.append_nil] at hd
  | cleared ht hc =>
    subst hst
    exact ht.dutiful (by simp) (by simp) (by simpa using hc)

/-! ### The answer to the last duty -/

/-- The workspace is taken away. -/
def Clears : Exchange WorkerCall WorkerCall.Answer → Prop
  | ⟨.errand (.remove _), _⟩ => True
  | _ => False

/-- Two lists with one element of a kind are split alike by it. -/
theorem eq_of_append_cons {α : Type} {P : α → Prop} {front back pre post : List α} {x y : α} (hx : P x)
    (he : pre ++ x :: post = front ++ y :: back) (hfront : ∀ z ∈ front, ¬ P z) (hback : ∀ z ∈ back, ¬ P z) :
    pre = front := by
  rcases List.append_eq_append_iff.mp he with ⟨mid, rfl, hmid⟩ | ⟨mid, rfl, hmid⟩
  · cases mid with
    | nil => exact (List.append_nil _).symm
    | cons z mid =>
      injection hmid with hz
      exact absurd (hz ▸ hx) (hfront z (by simp))
  · cases mid with
    | nil => exact List.append_nil _
    | cons z mid =>
      injection hmid with _ hmid
      exact absurd hx (hback x (by simp [hmid]))

/-- In the workspace nothing is taken away. -/
theorem not_clears_of_leads (hg : Leads (fixAndRecord s item w) h (.done e)) : ∀ x ∈ h, ¬ Clears x := by
  intro x hx hc
  obtain ⟨ds, hp, ht⟩ := toil_of_leads hg
  match x, hx with
  | ⟨.errand (.remove v), a⟩, hx => exact (ht.kind _ (hp.mem_of_remove hx)).2 rfl

theorem Parting.clears {t : Past} (ht : Parting s w e t) :
    (∀ x ∈ t, ¬ Clears x) ∨ ∃ y back, t = y :: back ∧ ∀ x ∈ back, ¬ Clears x := by
  cases ht with
  | kept => exact .inl (by simp [Clears])
  | removed | stuck => exact .inr ⟨_, _, rfl, by simp [Clears]⟩

/-- What a worker asks and hears until its workspace is ready. -/
def opening (s : Setting) (item : Item) (start : Nat) (w : Workspace) (r : LogRecord) : Past :=
  [⟨.interrupted, false⟩, ⟨.time, start⟩, ⟨.tell (.itemStart item.id s.waveIndex), ()⟩,
    ⟨.errand (.create item.id), (.ok w : Except Failure Workspace)⟩, ⟨.write r, ()⟩]

/-- What a worker asks and hears up to the moment when it takes the workspace away. -/
theorem split_of_remove {pre post : Past} {v : Workspace} {a : Except Failure Unit}
    (hd : Leads (work s item) (pre ++ ⟨.errand (.remove v), a⟩ :: post) (.done o)) : ∃ start w r g e ms,
    pre = opening s item start w r ++ g ∧ Leads (fixAndRecord s item w) g (.done e) ∧ o = outcome s item e ms := by
  have hx : Clears ⟨.errand (.remove v), a⟩ := trivial
  have hsome : ¬ ∀ x ∈ pre ++ ⟨.errand (.remove v), a⟩ :: post, ¬ Clears x := fun h => h _ (by simp) hx
  rcases work_split hd with ⟨hpast, -⟩ | ⟨start, stop, h, e, r, hpast, ho, hexec⟩
  · rw [hpast] at hsome
    exact absurd (by simp [Clears]) hsome
  rcases execute_split hexec with ⟨f, rfl, -⟩ | ⟨w, r', g, t, rfl, hg, ht⟩
  · rw [hpast] at hsome
    exact absurd (by simp [Clears]) hsome
  have hsplit : pre ++ ⟨.errand (.remove v), a⟩ :: post = opening s item start w r' ++ g ++
      (t ++ [⟨.time, stop⟩, ⟨.write r, ()⟩, ⟨.tell (.itemEnd o), ()⟩]) := by
    simpa [opening] using hpast
  have hfront : ∀ x ∈ opening s item start w r' ++ g, ¬ Clears x :=
    List.forall_mem_append.mpr ⟨by simp [opening, Clears], not_clears_of_leads hg⟩
  have hlast : ∀ x ∈ [⟨.time, stop⟩, ⟨.write r, ()⟩, ⟨.tell (.itemEnd o), ()⟩], ¬ Clears x := by simp [Clears]
  refine ⟨start, w, r', g, e, stop - start, ?_, hg, ho⟩
  rcases ht.clears with hback | ⟨y, back, rfl, hback⟩
  · rw [hsplit] at hsome
    exact absurd (List.forall_mem_append.mpr ⟨hfront, List.forall_mem_append.mpr ⟨hback, hlast⟩⟩) hsome
  · exact eq_of_append_cons hx hsplit hfront (List.forall_mem_append.mpr ⟨hback, hlast⟩)

/-- However the workspace is taken away, what became of the item stays. -/
theorem outcome_of_remove {pre post post' : Past} {v v' : Workspace} {a a' : Except Failure Unit} {o' : Outcome}
    (hd : Leads (work s item) (pre ++ ⟨.errand (.remove v), a⟩ :: post) (.done o))
    (hd' : Leads (work s item) (pre ++ ⟨.errand (.remove v'), a'⟩ :: post') (.done o')) :
    o' = { o with durationMs := o'.durationMs } := by
  obtain ⟨start, w, r, g, e, ms, rfl, hg, rfl⟩ := split_of_remove hd
  obtain ⟨start', w', r', g', e', ms', hpre, hg', rfl⟩ := split_of_remove hd'
  simp only [opening, List.cons_append, List.nil_append, List.cons.injEq] at hpre
  obtain ⟨-, -, -, hw, -, rfl⟩ := hpre
  cases hw
  obtain ⟨-, rfl⟩ := hg.unique hg' (t := []) (u := []) rfl
  rfl

/-- What duties say of the surroundings in which they were done. -/
structure TrueTo {σ : Type} (env : Surroundings σ) (s : Setting) (I : σ → Prop) (v : σ) (ds : List Duty)
    (o : Outcome) : Prop where
  /-- A fixer that finished needed no more than its time. -/
  finished : ∀ q r, .fix q (.finished r) ∈ ds →
    ∃ u, I u ∧ (env.fix q u).1.answer = .ok r ∧ (env.fix q u).1.afterMs ≤ s.limits.budgetMs
  timedOut : ∀ q, .fix q .timedOut ∈ ds → ∃ u, I u ∧ s.limits.budgetMs < (env.fix q u).1.afterMs
  interrupted : o.status = .interrupted → env.interrupted v = true

end Worker

namespace Pool

variable {budgetMs : Nat} {t : Timed (Except Failure FixResult)}

theorem fixEnd_eq_finished {r : FixResult} :
    fixEnd budgetMs t = .finished r ↔ t.answer = .ok r ∧ t.afterMs ≤ budgetMs := by
  unfold fixEnd
  split
  · next hle => split <;> simp_all
  · next hle => simp [hle]

theorem fixEnd_eq_timedOut : fixEnd budgetMs t = .timedOut ↔ budgetMs < t.afterMs := by
  unfold fixEnd
  split
  · next hle => split <;> simp [hle]
  · next hle => simpa using hle

end Pool

namespace Worker

variable {s : Setting} {item : Item} {past : Past} {o : Outcome} {ds : List Duty}

theorem trueTo_of_heard (hd : Leads (work s item) past (.done o)) (hs : o.started = true)
    (hp : Performs s.exclusions ds past) {σ : Type} {env : Surroundings σ} {I : σ → Prop} {v : σ}
    (hh : ∀ x ∈ past, Pool.Heard env s I v x) : TrueTo env s I v ds o where
  finished q r hq := by
    rcases hh _ (hp.mem_of_fix hq) with ⟨u, hu, he⟩ | ⟨he, -⟩
    · exact ⟨u, hu, Pool.fixEnd_eq_finished.mp he.symm⟩
    · cases he
  timedOut q hq := by
    rcases hh _ (hp.mem_of_fix hq) with ⟨u, hu, he⟩ | ⟨he, -⟩
    · exact ⟨u, hu, Pool.fixEnd_eq_timedOut.mp he.symm⟩
    · cases he
  interrupted hi := by
    have hr : Returned s item _ o := (work_safe s item).leads hd
    have hstop : (past.foldl next {}).stopped = true := by
      rcases hr.started hs with h | h | h | h
      · simp [h] at hi
      · simp [h] at hi
      · simp [h] at hi
      · exact h.2
    exact Pool.interrupted_of_stopped hh (by simp) hstop

/-- Whatever a worker asks can be answered. -/
theorem nonempty_answer (c : WorkerCall) : Nonempty c.Answer := by
  have hfailure (α : Type) : Nonempty (Except Failure α) := ⟨.error { cause := "" }⟩
  cases c with
  | interrupted => exact ⟨false⟩
  | time => exact ⟨Nat.zero⟩
  | tell _ | write _ | lock | unlock => exact ⟨()⟩
  | fix _ => exact ⟨FixEnd.timedOut⟩
  | errand e =>
    cases e with
    | create _ | commit _ _ | remove _ => exact hfailure _
    | repository _ c =>
      cases c with
      | existing => exact ⟨fun _ => false⟩
      | head | dirtyFiles | merge _ _ | stashPush _ _ | stashPop | abort | resetHard _ | resetMerge _ =>
        exact hfailure _

/-- What a worker that begins has others do for its item: it gets a workspace, has the fixer work in it, commits after a
fixer that finished with success in time, merges what the commit recorded, and takes the workspace away if the item is
completed or nothing is kept. How the item ends is decided by these, except for how the workspace was taken away. -/
theorem duties_of_leads (hd : Leads (work s item) past (.done o)) (hs : o.started = true) :
    (∃ ds, Performs s.exclusions ds past ∧ Dutiful s item ds o ∧
      ∀ {σ : Type} (env : Surroundings σ) (I : σ → Prop) (v : σ), (∀ x ∈ past, Pool.Heard env s I v x) →
        TrueTo env s I v ds o) ∧
    ∀ pre w a post, past = pre ++ ⟨.errand (.remove w), a⟩ :: post → ∀ a' : Except Failure Unit,
      (∃ post' o', Leads (work s item) (pre ++ ⟨.errand (.remove w), a'⟩ :: post') (.done o')) ∧
      ∀ post' o', Leads (work s item) (pre ++ ⟨.errand (.remove w), a'⟩ :: post') (.done o') →
        o' = { o with durationMs := o'.durationMs } := by
  constructor
  · rcases work_split hd with ⟨-, rfl⟩ | ⟨start, stop, h, e, r, rfl, ho, hexec⟩
    · cases hs
    obtain ⟨ds, hp, hservice⟩ := service_of_leads hexec
    have hfront : Performs s.exclusions []
        [⟨.interrupted, false⟩, ⟨.time, start⟩, ⟨.tell (.itemStart item.id s.waveIndex), ()⟩] :=
      .asides (by simp [Aside])
    have hback : Performs s.exclusions [] [⟨.time, stop⟩, ⟨.write r, ()⟩, ⟨.tell (.itemEnd o), ()⟩] :=
      .asides (by simp [Aside])
    have hall := (hfront.append hp).append hback
    rw [List.nil_append, List.append_nil] at hall
    have hst : o.status = e.status := by rw [ho, outcome]
    exact ⟨ds, hall, Service.dutiful (hst ▸ hservice), fun env I v hh => trueTo_of_heard hd hs hall hh⟩
  · rintro pre w a post rfl a'
    refine ⟨?_, fun post' o' hd' => outcome_of_remove hd hd'⟩
    obtain ⟨k, hk⟩ := hd.exists_ask
    obtain ⟨post', o', hrest⟩ := exists_done nonempty_answer (k a')
    exact ⟨post', o', by simpa using (hk.snoc a').append hrest⟩

/-- A fixer that had nothing to change, and a workspace that cannot be taken away. -/
theorem duties_of_stuck : ∃ pre post o,
    Leads (work ⟨0, { keepFailed := true }, {}⟩ { id := "A" })
      (pre ++ ⟨.errand (.remove ⟨"A", "wt/A", "fix/A"⟩), (.error { cause := "busy" } : Except Failure Unit)⟩ :: post)
      (.done o) ∧
    o.started = true ∧ o.status = .completed ∧
    (∃ ds, Dutiful ⟨0, { keepFailed := true }, {}⟩ { id := "A" } ds o) ∧
    ∃ post' o',
      Leads (work ⟨0, { keepFailed := true }, {}⟩ { id := "A" })
        (pre ++ ⟨.errand (.remove ⟨"A", "wt/A", "fix/A"⟩), (.ok () : Except Failure Unit)⟩ :: post') (.done o') ∧
      o' = { o with durationMs := o'.durationMs } := by
  have hd : Leads (work ⟨0, { keepFailed := true }, {}⟩ { id := "A" })
      ([⟨.interrupted, false⟩, ⟨.time, (0 : Nat)⟩, ⟨.tell (.itemStart "A" 0), ()⟩,
        ⟨.errand (.create "A"), (.ok ⟨"A", "wt/A", "fix/A"⟩ : Except Failure Workspace)⟩, ⟨.write _, ()⟩,
        ⟨.fix _, FixEnd.finished ⟨0, "", ""⟩⟩, ⟨.errand (.commit _ _), (.ok false : Except Failure Bool)⟩] ++
        ⟨.errand (.remove ⟨"A", "wt/A", "fix/A"⟩), (.error { cause := "busy" } : Except Failure Unit)⟩ ::
        [⟨.write _, ()⟩, ⟨.time, (7 : Nat)⟩, ⟨.write _, ()⟩, ⟨.tell _, ()⟩]) (.done _) :=
    .ask (.ask (.ask (.ask (.ask (.ask (.ask (.ask (.ask (.ask (.ask (.ask (.refl _))))))))))))
  obtain ⟨⟨ds, -, hds, -⟩, hlast⟩ := duties_of_leads hd rfl
  obtain ⟨⟨post', o', hd'⟩, ho⟩ := hlast _ _ _ _ rfl (.ok ())
  exact ⟨_, _, _, hd, rfl, rfl, ⟨ds, hds⟩, post', o', hd', ho post' o' hd'⟩

end Worker

end WorkWaves
