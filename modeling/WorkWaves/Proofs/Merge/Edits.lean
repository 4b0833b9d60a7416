import WorkWaves.Merge.Integration
import WorkWaves.Proofs.Dialogue

/-!
# What a merge that conflicts does to edits that it leaves alone

`Tree` is what a merge touches of the working tree, and `Tree.Answers` says what a call may do to it: to go back to a
commit drops all edits, or spares those that the merged branch does not touch, according to the call. A merge spares
such edits until it drops all (`Sparing`), and what it put aside before comes back even so (`keeps_aside`). All is
dropped when the merge cannot be aborted or leaves the repository on another commit; then the edits of excluded files
are lost, which are not put aside (`edits_of_leads`).
-/

namespace WorkWaves.Merge

open Dialogue

/-- What is asked in a merge, with the answer. -/
abbrev Spoken := Exchange MergeCall MergeCall.Answer

/-- A call on the repository, with the answer. -/
abbrev asked (c : RepositoryCall) (a : c.Answer) : Spoken := ⟨.repository c, a⟩

variable {Edit : Type} {free : String → Prop} {h h' : List Spoken} {head : String} {paths : List String}

/-- A working tree. -/
structure Tree (Edit : Type) where
  /-- What was edited since the last commit, path by path. -/
  edits : String → Option Edit
  /-- What is put aside, the latest first: the paths that were named, and the edits at that time. -/
  aside : List (List String × (String → Option Edit))

variable {t m t' : Tree Edit}

/-- What a call may do to the working tree, given its answer. The paths that the merged branch does not touch are
`free`. -/
def Tree.Answers (free : String → Prop) (t : Tree Edit) : (c : RepositoryCall) → c.Answer → Tree Edit → Prop
  | .head, _, t' | .dirtyFiles, _, t' | .existing, _, t' => t' = t
  | .stashPush paths _, .ok (), t' =>
    t'.aside = (paths, t.edits) :: t.aside ∧ ∀ p, t'.edits p = if p ∈ paths then none else t.edits p
  | .stashPush paths _, .error _, t' => t'.aside = t.aside ∧ ∀ p ∉ paths, t'.edits p = t.edits p
  | .stashPop, .ok (), t' => ∃ paths saved, t.aside = (paths, saved) :: t'.aside ∧
    ∀ p, t'.edits p = if p ∈ paths then saved p else t.edits p
  | .stashPop, .error _, t' => t'.aside = t.aside ∧
    ∀ p, (∀ entry, t.aside.head? = some entry → p ∉ entry.1) → t'.edits p = t.edits p
  | .merge _ _, _, t' | .abort, _, t' | .resetMerge _, _, t' =>
    t'.aside = t.aside ∧ ∀ p, free p → t'.edits p = t.edits p
  | .resetHard _, .ok (), t' => t'.aside = t.aside ∧ ∀ p, t'.edits p = none
  | .resetHard _, .error _, t' => t'.aside = t.aside

/-- What a question of a merge may do to the working tree; only calls on the repository do anything. -/
def Tree.Step (free : String → Prop) (t : Tree Edit) : (c : MergeCall) → c.Answer → Tree Edit → Prop
  | .repository c, a, t' => t.Answers free c a t'
  | .lock, _, t' | .unlock, _, t' | .interrupted, _, t' | .write _, _, t' => t' = t

/-- A working tree becomes another one while a merge goes on. -/
inductive Along (free : String → Prop) : Tree Edit → List Spoken → Tree Edit → Prop
  | nil (t : Tree Edit) : Along free t [] t
  | cons {t m t' : Tree Edit} {c : MergeCall} {a : c.Answer} {h : List Spoken} :
      t.Step free c a m → Along free m h t' → Along free t (⟨c, a⟩ :: h) t'

namespace Along

theorem append_iff : Along free t (h ++ h') t' ↔ ∃ m, Along free t h m ∧ Along free m h' t' := by
  induction h generalizing t with
  | nil => exact ⟨fun ha => ⟨t, .nil t, ha⟩, by rintro ⟨_, ⟨⟩, ha⟩; exact ha⟩
  | cons x h ih =>
    constructor
    · rintro (_ | ⟨hs, ha⟩)
      obtain ⟨m, hm, ha⟩ := ih.mp ha
      exact ⟨m, .cons hs hm, ha⟩
    · rintro ⟨m, _ | ⟨hs, hm⟩, ha⟩
      exact .cons hs (ih.mpr ⟨m, hm, ha⟩)

theorem cons_iff {c : MergeCall} {a : c.Answer} :
    Along free t (⟨c, a⟩ :: h) t' ↔ ∃ m, t.Step free c a m ∧ Along free m h t' :=
  ⟨by rintro (_ | ⟨hs, ha⟩); exact ⟨_, hs, ha⟩, by rintro ⟨m, hs, ha⟩; exact .cons hs ha⟩

end Along

/-! ### Sparing edits -/

/-- Whether all changes are dropped. -/
def drops : Spoken → Bool
  | ⟨.repository (.resetHard _), _⟩ => true
  | _ => false

/-- Whether a merge cannot be aborted, or the repository is found on another commit than `head`. -/
def strays (head : String) : Spoken → Bool
  | ⟨.repository .abort, (.error _ : Except Failure Unit)⟩ => true
  | ⟨.repository .head, (.ok now : Except Failure String)⟩ => now != head
  | _ => false

/-- Whether nothing is put aside or brought back, and to drop all changes does not fail. -/
def spares : Spoken → Bool
  | ⟨.repository (.stashPush _ _), _⟩ | ⟨.repository .stashPop, _⟩ => false
  | ⟨.repository (.resetHard _), (.error _ : Except Failure Unit)⟩ => false
  | _ => true

/-- What is put aside stays so, and the edits of free paths stay unless all are dropped. -/
structure Spares (free : String → Prop) (t : Tree Edit) (h : List Spoken) (t' : Tree Edit) : Prop where
  aside : t'.aside = t.aside
  edits : ∀ p, free p → t'.edits p = if h.any drops then none else t.edits p

namespace Spares

theorem refl (t : Tree Edit) : Spares free t [] t := ⟨rfl, fun _ _ => rfl⟩

theorem trans (hm : Spares free t h m) (ht : Spares free m h' t') : Spares free t (h ++ h') t' := by
  refine ⟨ht.aside.trans hm.aside, fun p hp => ?_⟩
  rw [ht.edits p hp, hm.edits p hp, List.any_append]
  cases h.any drops <;> cases h'.any drops <;> rfl

theorem of_step {c : MergeCall} {a : c.Answer} (hs : t.Step free c a t') (hx : spares ⟨c, a⟩ = true) :
    Spares free t [⟨c, a⟩] t' := by
  match c, a with
  | .lock, _ | .unlock, _ | .interrupted, _ | .write _, _ | .repository .head, _ | .repository .dirtyFiles, _
  | .repository .existing, _ =>
    obtain rfl := hs
    exact ⟨rfl, fun _ _ => rfl⟩
  | .repository (.merge _ _), _ | .repository .abort, _ | .repository (.resetMerge _), _ => exact ⟨hs.1, hs.2⟩
  | .repository (.resetHard _), .ok () => exact ⟨hs.1, fun p _ => hs.2 p⟩

theorem of_along (ha : Along free t h t') (hx : ∀ x ∈ h, spares x = true) : Spares free t h t' := by
  induction ha with
  | nil t => exact refl t
  | cons hs _ ih =>
    obtain ⟨hx, hrest⟩ := List.forall_mem_cons.mp hx
    exact (of_step hs hx).trans (ih hrest)

end Spares

/-! ### The ways of a merge that conflicts -/

/-- A part of a merge that spares edits until it drops all, and drops all just when it strays from `head`. -/
structure Sparing (head : String) (h : List Spoken) : Prop where
  spares : ∀ x ∈ h, Merge.spares x = true
  drops : h.any Merge.drops = h.any (strays head)

theorem Sparing.cons {x : Spoken} (hx : Merge.spares x = true) (hd : Merge.drops x = strays head x)
    (hh : Sparing head h) : Sparing head (x :: h) :=
  ⟨List.forall_mem_cons.mpr ⟨hx, hh.spares⟩, by rw [List.any_cons, hd, hh.drops, List.any_cons]⟩

theorem sparing_nil : Sparing head [] := ⟨by simp, rfl⟩

theorem returnTo_sparing (head : String) : Wholly (fun h a => a = .ok () → Sparing head h) (returnTo head) := by
  rintro (e | now)
  · exact nofun
  · refine Wholly.ite (fun hnow => ?_) fun hnow => ?_
    · exact fun _ => sparing_nil.cons rfl (bne_eq_false_iff_eq.mpr hnow).symm
    · rintro (e | ⟨⟩)
      · exact nofun
      · exact fun _ => ⟨by simp [Merge.spares], by simp [Merge.drops, strays, hnow]⟩

theorem rollback_sparing (head : String) :
    Wholly (fun h a => a = .ok () → Sparing head h) (rollback head true) := by
  rintro (e | ⟨⟩)
  · rintro ⟨⟩ (e' | ⟨⟩)
    · exact nofun
    · exact fun _ => ⟨by simp [Merge.spares], by simp [Merge.drops, strays]⟩
  · exact (returnTo_sparing head).mono fun h a hh ha => (hh ha).cons rfl rfl

theorem attempt_sparing (head branch message : String) :
    Wholly (fun h a => ∀ o, a = .ok o → Sparing head h) (attempt head branch message) := by
  rintro (e | (_ | files))
  · rintro ⟨⟩
    refine (Wholly.all (rollback head false) fun _ _ => trivial).andThen (P := fun _ _ => True) ?_
    rintro h (e' | ⟨⟩) - <;> exact nofun
  · rintro ⟨⟩ o -
    exact (sparing_nil.cons rfl rfl).cons rfl rfl
  · rintro ⟨⟩
    refine (rollback_sparing head).andThen ?_
    rintro h (e | ⟨⟩) hh
    · exact nofun
    · rintro o -
      rw [List.append_nil]
      exact ((hh rfl).cons rfl rfl).cons rfl rfl

/-- What a part of a merge does that drops all changes just when it strays from `head`: dropped are all free edits but
those of `paths`. -/
structure Keeps (head : String) (paths : List String) (h : List Spoken) : Prop where
  drops : h.any Merge.drops = h.any (strays head)
  edits : ∀ {Edit : Type} {free : String → Prop} {t t' : Tree Edit}, Along free t h t' → ∀ p, free p →
    t'.edits p = if h.any Merge.drops = true ∧ p ∉ paths then none else t.edits p

theorem Sparing.keeps (hh : Sparing head h) : Keeps head [] h :=
  ⟨hh.drops, fun ha p hp => ((Spares.of_along ha hh.spares).edits p hp).trans
    (ite_congr (propext (and_iff_left List.not_mem_nil).symm) (fun _ => rfl) fun _ => rfl)⟩

theorem Keeps.cons {x : Spoken} (hx : spares x = true) (hd : Merge.drops x = false) (hs : strays head x = false)
    (hh : Keeps head paths h) : Keeps head paths (x :: h) := by
  refine ⟨by rw [List.any_cons, hd, hh.drops, List.any_cons, hs], fun ha p hp => ?_⟩
  obtain ⟨m, hm, ha⟩ := Along.cons_iff.mp ha
  rw [hh.edits ha p hp, (Spares.of_step hm hx).edits p hp, List.any_cons, hd, List.any_cons, hd]
  rfl

theorem Keeps.snoc {x : Spoken} (hx : spares x = true) (hd : Merge.drops x = false) (hs : strays head x = false)
    (hh : Keeps head paths h) : Keeps head paths (h ++ [x]) := by
  have hdrops : (h ++ [x]).any Merge.drops = h.any Merge.drops := by simp [hd]
  refine ⟨by simp [hd, hs, hh.drops], fun ha p hp => ?_⟩
  obtain ⟨m, hm, ha⟩ := Along.append_iff.mp ha
  have hx' := Spares.of_along ha (by simp [hx])
  rw [hx'.edits p hp, hh.edits hm p hp, hdrops, List.any_cons, hd]
  rfl

/-- What is put aside is brought back, and the rest of the free edits stays. -/
structure Returns (h : List Spoken) : Prop where
  drops : h.any Merge.drops = false
  strays : ∀ head, h.any (strays head) = false
  edits : ∀ {Edit : Type} {free : String → Prop} {t t' : Tree Edit} {entry : List String × (String → Option Edit)}
    {rest : List (List String × (String → Option Edit))}, t.aside = entry :: rest → Along free t h t' →
    ∀ p, free p → t'.edits p = if p ∈ entry.1 then entry.2 p else t.edits p

theorem returns_pop : Returns [asked .stashPop (.ok ())] := by
  refine ⟨rfl, fun _ => rfl, fun {_ _ t t' entry _} haside ha p _ => ?_⟩
  obtain ⟨m, ⟨paths, saved, hm, hedits⟩, ⟨⟩⟩ := Along.cons_iff.mp ha
  obtain ⟨rfl, -⟩ := List.cons.inj (haside.symm.trans hm)
  exact hedits p

theorem returns_restored (e : Failure) (r : LogRecord) (head : String) :
    Returns [asked .stashPop (.error e), ⟨.write r, ()⟩, asked (.resetMerge head) (.ok ()),
      asked .stashPop (.ok ())] := by
  refine ⟨rfl, fun _ => rfl, fun {_ _ t t' entry _} haside ha p hp => ?_⟩
  obtain ⟨t₁, ⟨haside₁, hedits₁⟩, ha₁⟩ := Along.cons_iff.mp ha
  obtain ⟨t₂, rfl, ha₂⟩ := Along.cons_iff.mp ha₁
  obtain ⟨t₃, ⟨haside₃, hedits₃⟩, ha₃⟩ := Along.cons_iff.mp ha₂
  rw [returns_pop.edits ((haside₃.trans haside₁).trans haside) ha₃ p hp]
  split
  · rfl
  · next hmem =>
    refine (hedits₃ p hp).trans (hedits₁ p ?_)
    rw [haside]
    rintro _ ⟨⟩
    exact hmem

theorem bringBack_returns (head : String) (paths : List String) (result : Except Failure MergeOutcome) :
    Wholly (fun h a => ∀ o, a = .ok o → Returns h ∧ ∃ o', result = .ok o') (bringBack head paths result) := by
  rintro (e | ⟨⟩)
  · rintro ⟨⟩ (e' | ⟨⟩)
    · exact nofun
    · rintro (e' | ⟨⟩)
      · exact nofun
      · match result with
        | .error _ => exact nofun
        | .ok .merged | .ok (.conflict _) | .ok .interrupted =>
          exact fun _ _ => ⟨returns_restored _ _ _, _, rfl⟩
  · exact fun o ho => ⟨returns_pop, o, ho⟩

/-- What is put aside before a part that spares edits, and brought back after it, is kept also where all is dropped. -/
theorem keeps_aside (name : String) (r : LogRecord) (hh : Sparing head h) (hr : Returns h') :
    Keeps head paths (asked (.stashPush paths name) (.ok ()) :: ⟨.write r, ()⟩ :: (h ++ h')) := by
  have hdrops : List.any (asked (.stashPush paths name) (.ok ()) :: ⟨.write r, ()⟩ :: (h ++ h')) drops =
      h.any drops := by simp [drops, hr.drops]
  refine ⟨by simp [hdrops, strays, hh.drops, hr.strays], fun {_ _ t t'} ha p hp => ?_⟩
  obtain ⟨t₁, ⟨haside, hedits⟩, ha₁⟩ := Along.cons_iff.mp ha
  obtain ⟨t₂, rfl, ha₂⟩ := Along.cons_iff.mp ha₁
  obtain ⟨t₃, hm, ha₃⟩ := Along.append_iff.mp ha₂
  have hs := Spares.of_along hm hh.spares
  rw [hr.edits (hs.aside.trans haside) ha₃ p hp, hs.edits p hp, hedits p, hdrops]
  by_cases hmem : p ∈ paths
  · simp [hmem]
  · rw [if_neg hmem, if_neg hmem]
    exact ite_congr (propext (and_iff_left hmem).symm) (fun _ => rfl) fun _ => rfl

theorem withoutChanges_keeps (w : Workspace) (message head : String) (paths : List String) :
    Wholly (fun h a => ∀ o, a = .ok o → Keeps head paths h) (withoutChanges w message head paths) := by
  refine Wholly.ite (fun hnil => ?_) fun _ => ?_
  · rw [List.isEmpty_iff.mp hnil]
    exact (attempt_sparing head w.branch message).mono fun _ _ hh o ho => (hh o ho).keeps
  · rintro (e | ⟨⟩)
    · exact nofun
    · rintro ⟨⟩
      refine (attempt_sparing head w.branch message).andThen fun h result hh => ?_
      refine (bringBack_returns head paths result).mono fun h' a hr o ho => ?_
      obtain ⟨hr, o', hresult⟩ := hr o ho
      exact keeps_aside _ _ (hh o' hresult) hr

/-- What a merge is told before it puts anything aside. -/
def opening (head : String) (files : List DirtyFile) (present : String → Bool) : List Spoken :=
  [⟨.lock, ()⟩, ⟨.interrupted, false⟩, asked .head (.ok head), asked .dirtyFiles (.ok files), asked .existing present]

theorem around_keeps (x : Exclusions) (w : Workspace) (message head : String) :
    Wholly (fun h a => ∀ o, a = .ok o → ∃ files present rest,
      h = asked .dirtyFiles (.ok files) :: asked .existing present :: rest ∧
        Keeps head (x.stashPaths present files) rest) (around x w message head) := by
  rintro (e | files)
  · exact nofun
  · refine fun present => Wholly.ite (fun _ => ?_) fun _ => ?_
    · exact (withoutChanges_keeps w message head _).mono fun h a hh o ho => ⟨files, present, h, rfl, hh o ho⟩
    · rintro ⟨⟩
      refine (withoutChanges_keeps w message head _).mono fun h a hh o ho => ?_
      exact ⟨files, present, _, rfl, (hh o ho).cons rfl rfl rfl⟩

theorem underLock_keeps (x : Exclusions) (w : Workspace) (message : String) :
    Wholly (fun h a => ∀ o, a = .ok o → o ≠ .interrupted → ∃ head files present rest,
      ⟨.lock, ()⟩ :: h = opening head files present ++ rest ∧ Keeps head (x.stashPaths present files) rest)
      (underLock x w message) := by
  rintro (_ | _)
  · rintro (e | head)
    · exact nofun
    · refine (around_keeps x w message head).mono fun h a hh o ho _ => ?_
      obtain ⟨files, present, rest, rfl, hk⟩ := hh o ho
      exact ⟨head, files, present, rest, rfl, hk⟩
  · rintro ⟨⟩ o ⟨⟩ ho
    exact absurd rfl ho

theorem integrate_keeps (x : Exclusions) (w : Workspace) (message : String) :
    Wholly (fun h a => ∀ o, a = .ok o → o ≠ .interrupted → ∃ head files present rest,
      h = opening head files present ++ rest ∧ Keeps head (x.stashPaths present files) rest)
      (integrate x w message) := by
  refine fun _ => (underLock_keeps x w message).andThen fun h a hh => ?_
  rintro ⟨⟩ o ho hne
  obtain ⟨head, files, present, rest, hrest, hk⟩ := hh o ho hne
  refine ⟨head, files, present, rest ++ [⟨.unlock, ()⟩], ?_, hk.snoc rfl rfl rfl⟩
  rw [← List.append_assoc, ← hrest]
  rfl

/-- A merge that is not interrupted and ends without a failure is told of the commit on which the repository is and of
the changed files. It drops all changes just when the merge cannot be aborted or has left the repository on another
commit. Edits of excluded files that the merged branch does not touch are kept, except that they are lost where all
is dropped and no file that is put aside shares the path. -/
theorem edits_of_leads {x : Exclusions} {w : Workspace} {message : String} {o : MergeOutcome}
    (hl : Leads (integrate x w message) h (.done (.ok o))) (ho : o ≠ .interrupted) (ha : Along free t h t') :
    ∃ head files present rest, h = opening head files present ++ rest ∧
      (rest.any drops = true ↔ rest.any (strays head) = true) ∧
      ∀ f ∈ files, x.excludes present f = true → ∀ p ∈ f.paths, free p →
        (rest.any drops = false ∨ p ∈ x.stashPaths present files → t'.edits p = t.edits p) ∧
        (rest.any drops = true → p ∉ x.stashPaths present files → t'.edits p = none) := by
  obtain ⟨head, files, present, rest, rfl, hk⟩ := (integrate_keeps x w message).leads hl o rfl ho
  obtain ⟨m, hm, ha⟩ := Along.append_iff.mp ha
  refine ⟨head, files, present, rest, rfl, by rw [hk.drops], fun f _ _ p _ hp => ?_⟩
  have hopen := Spares.of_along hm (by simp [opening, spares])
  rw [hk.edits ha p hp, hopen.edits p hp]
  constructor
  · rintro (hd | hmem)
    · simp [hd, opening, drops]
    · simp [hmem, opening, drops]
  · intro hd hmem
    simp [hd, hmem]

/-- A tree in which the files of some paths are edited, with what is put aside. -/
def edited (paths : List String) (aside : List (List String × (String → Option Unit)) := []) : Tree Unit :=
  ⟨fun p => if p ∈ paths then some () else none, aside⟩

/-- The merge of a branch where the state file is left alone. -/
def besideState : Talk (Except Failure MergeOutcome) :=
  integrate { stateFile := some "state.json" } ⟨"item", "branch", "dir"⟩ "message"

/-- A course in which the state file and another one are edited, and a conflict in a third cannot be called off. -/
theorem exists_stuck : ∃ h : List Spoken, asked .existing (fun _ => false) ∈ h ∧
    asked .dirtyFiles (.ok [⟨"state.json", .modified⟩, ⟨"notes", .modified⟩]) ∈ h ∧
    Leads besideState h (.done (.ok (.conflict ["src/x"]))) ∧
    Along (· ≠ "src/x") (edited ["state.json", "notes"]) h (edited ["notes"]) := by
  let aside : List (List String × (String → Option Unit)) := [(["notes"], (edited ["state.json", "notes"]).edits)]
  refine ⟨opening "base" [⟨"state.json", .modified⟩, ⟨"notes", .modified⟩] (fun _ => false) ++
      [⟨.write _, ()⟩, asked (.stashPush ["notes"] _) (.ok ()), ⟨.write _, ()⟩,
        asked (.merge _ _) (.ok (.conflict ["src/x"])), ⟨.write _, ()⟩,
        asked .abort (.error ⟨[], "index locked", [], none⟩), ⟨.write _, ()⟩, asked (.resetHard "base") (.ok ()),
        asked .stashPop (.ok ()), ⟨.unlock, ()⟩],
    by simp [opening], by simp [opening],
    .ask <| .ask <| .ask <| .ask <| .ask <| .ask <| .ask <| .ask <| .ask <| .ask <| .ask <| .ask <| .ask <| .ask <|
      .ask <| .refl _, ?_⟩
  have hpush : ∀ p, (edited ["state.json"] aside).edits p =
      if p ∈ ["notes"] then none else (edited ["state.json", "notes"]).edits p := fun p => by
    by_cases hp : p = "notes" <;> simp [edited, hp]
  have hpop : ∀ p, (edited ["notes"]).edits p =
      if p ∈ ["notes"] then (edited ["state.json", "notes"]).edits p else (edited [] aside).edits p := fun p => by
    by_cases hp : p = "notes" <;> simp [edited, hp]
  exact .cons rfl <| .cons rfl <| .cons rfl <| .cons rfl <| .cons rfl <| .cons rfl <|
    .cons (m := edited ["state.json"] aside) ⟨rfl, hpush⟩ <| .cons rfl <| .cons ⟨rfl, fun _ _ => rfl⟩ <| .cons rfl <|
    .cons ⟨rfl, fun _ _ => rfl⟩ <| .cons rfl <| .cons (m := edited [] aside) ⟨rfl, fun _ => rfl⟩ <|
    .cons ⟨["notes"], _, rfl, hpop⟩ <| .cons rfl <| .nil _

/-- A conflict that cannot be called off takes the edit of an excluded file with it that the branch does not touch. -/
theorem edit_lost_of_stuck : ∃ (h : List Spoken) (files : List DirtyFile) (present : String → Bool) (t t' : Tree Unit),
    Leads besideState h (.done (.ok (.conflict ["src/x"]))) ∧ Along (· ≠ "src/x") t h t' ∧
    asked .dirtyFiles (.ok files) ∈ h ∧ asked .existing present ∈ h ∧
    ∃ f ∈ files, { stateFile := some "state.json" : Exclusions }.excludes present f = true ∧
      (∀ p ∈ f.paths, p ≠ "src/x") ∧ ∃ p ∈ f.paths, t.edits p = some () ∧ t'.edits p = none := by
  obtain ⟨h, hpresent, hfiles, hl, ha⟩ := exists_stuck
  exact ⟨h, _, _, _, _, hl, ha, hfiles, hpresent, ⟨"state.json", .modified⟩, by simp, by decide, by simp [DirtyFile.paths],
    "state.json", by simp [DirtyFile.paths], by simp [edited], by simp [edited]⟩

theorem edits_of_stuck : ∃ h : List Spoken, Leads besideState h (.done (.ok (.conflict ["src/x"]))) ∧
    Along (· ≠ "src/x") (edited ["state.json", "notes"]) h (edited ["notes"]) ∧
    ∃ head files present rest, h = opening head files present ++ rest ∧
      (rest.any drops = true ↔ rest.any (strays head) = true) ∧
      ∀ f ∈ files, { stateFile := some "state.json" : Exclusions }.excludes present f = true → ∀ p ∈ f.paths,
        p ≠ "src/x" →
        (rest.any drops = false ∨ p ∈ { stateFile := some "state.json" : Exclusions }.stashPaths present files →
          (edited ["notes"]).edits p = (edited ["state.json", "notes"]).edits p) ∧
        (rest.any drops = true → p ∉ { stateFile := some "state.json" : Exclusions }.stashPaths present files →
          (edited ["notes"]).edits p = none) := by
  obtain ⟨h, -, -, hl, ha⟩ := exists_stuck
  exact ⟨h, hl, ha, edits_of_leads hl (by simp) ha⟩

end WorkWaves.Merge
