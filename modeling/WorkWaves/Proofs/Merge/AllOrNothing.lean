import WorkWaves.Proofs.Merge.Repository

/-!
# A merge lands wholly or not at all

`Settled` says for each end of a merge what it leaves of the repository. The parts of a merge are assured of
their shares of it one after the other, and `settled_of_course` is the whole: whatever the calls answer and
wherever failing ones leave the repository, the merge has landed, or the repository is on the commit on which
it was, or one of the calls that could have taken it back failed.
-/

namespace WorkWaves.Merge

variable {Entry : Type}

/-- No call failed that tells the commit of the repository or goes back to one. -/
def Located (l : List (Deed Entry)) : Prop := ∀ x ∈ l, x.locates = true → x.failed = false

/-- The last call that brings back what was put aside did not fail, if there was one. -/
def BroughtBack (l : List (Deed Entry)) : Prop := ∀ x, (l.filter Deed.pops).getLast? = some x → x.failed = false

/-- How a merge that began in `r` on the commit `head` may leave the repository, for each of its ends. -/
def Settled (head : String) (r : Repo Entry) (l : List (Deed Entry)) (r' : Repo Entry) :
    Except Failure MergeOutcome → Prop
  | .ok .interrupted => ∀ x ∈ l, x.onRepository = false
  | .ok .merged => (∃ x, l.filter Deed.merges = [x] ∧ r'.head = x.after.head) ∧ (∀ x ∈ l, x.undoes = false) ∧
      r'.stash = r.stash
  | .ok (.conflict _) => r'.head = head ∧ r'.merging = false ∧ r'.stash = r.stash
  | .error _ => Located l → BroughtBack l → r'.head = head ∧ r'.stash = r.stash

theorem located_append {l₁ l₂ : List (Deed Entry)} : Located (l₁ ++ l₂) ↔ Located l₁ ∧ Located l₂ :=
  List.forall_mem_append

theorem Located.of_cons {x : Deed Entry} {l : List (Deed Entry)} (h : Located (x :: l)) : Located l :=
  fun y hy => h y (List.mem_cons_of_mem x hy)

theorem BroughtBack.of_append {l₁ l₂ : List (Deed Entry)} (h : BroughtBack (l₁ ++ l₂)) : BroughtBack l₂ := by
  intro x hx
  refine h x ?_
  rw [List.filter_append, List.getLast?_append, hx]
  rfl

theorem BroughtBack.of_cons {x : Deed Entry} {l : List (Deed Entry)} (h : BroughtBack (x :: l)) : BroughtBack l :=
  BroughtBack.of_append (show BroughtBack ([x] ++ l) from h)

theorem BroughtBack.of_none {l : List (Deed Entry)} (h : l.filter Deed.pops = []) : BroughtBack l := by
  intro x hx
  rw [h] at hx
  cases hx

/-- A call failed without which the repository or the changes cannot be brought back. -/
def Lost (l : List (Deed Entry)) : Prop := Located l → ¬ BroughtBack l

theorem Lost.append {l₁ l₂ : List (Deed Entry)} (h : Lost l₂) : Lost (l₁ ++ l₂) :=
  fun hl hb => h (located_append.mp hl).2 hb.of_append

theorem Lost.cons {x : Deed Entry} {l : List (Deed Entry)} (h : Lost l) : Lost (x :: l) :=
  fun hl hb => h hl.of_cons hb.of_cons

/-- A deed before a merge that neither merges nor undoes one changes nothing about its end. -/
theorem Settled.cons {head : String} {r r' : Repo Entry} {l : List (Deed Entry)} {x : Deed Entry}
    {result : Except Failure MergeOutcome} (h : Settled head r l r' result)
    (hx : x.onRepository = true → result ≠ .ok .interrupted) (hm : x.merges = false) (hu : x.undoes = false) :
    Settled head r (x :: l) r' result := by
  match result with
  | .ok .interrupted =>
    intro y hy
    rcases List.mem_cons.mp hy with rfl | hy
    · exact Bool.eq_false_iff.mpr fun hr => hx hr rfl
    · exact h y hy
  | .ok .merged =>
    obtain ⟨⟨y, hy, hhead⟩, hnone, hstash⟩ := h
    refine ⟨⟨y, ?_, hhead⟩, ?_, hstash⟩
    · rw [List.filter_cons_of_neg (by simp [hm]), hy]
    · intro z hz
      rcases List.mem_cons.mp hz with rfl | hz
      · exact hu
      · exact hnone z hz
  | .ok (.conflict _) => exact h
  | .error _ =>
    intro hl hb
    exact h hl.of_cons hb.of_cons

/-- So does a deed after it that does not concern the repository. -/
theorem Settled.snoc {head : String} {r r' : Repo Entry} {l : List (Deed Entry)} {x : Deed Entry}
    {result : Except Failure MergeOutcome} (h : Settled head r l r' result) (hx : x.onRepository = false)
    (hm : x.merges = false) (hu : x.undoes = false) (hp : x.pops = false) : Settled head r (l ++ [x]) r' result := by
  match result with
  | .ok .interrupted =>
    intro y hy
    rcases List.mem_append.mp hy with hy | hy
    · exact h y hy
    · rw [List.mem_singleton.mp hy]
      exact hx
  | .ok .merged =>
    obtain ⟨⟨y, hy, hhead⟩, hnone, hstash⟩ := h
    refine ⟨⟨y, ?_, hhead⟩, ?_, hstash⟩
    · rw [List.filter_append, hy, List.filter_cons_of_neg (by simp [hm])]
      rfl
    · intro z hz
      rcases List.mem_append.mp hz with hz | hz
      · exact hnone z hz
      · rw [List.mem_singleton.mp hz]
        exact hu
  | .ok (.conflict _) => exact h
  | .error _ =>
    intro hl hb
    refine h (located_append.mp hl).1 fun y hy => hb y ?_
    rw [List.filter_append, List.filter_cons_of_neg (by simp [hp]), List.filter_nil, List.append_nil]
    exact hy

/-! ### Going back -/

/-- A way back to a commit: it leaves alone what is put aside, and if it fails, then because a call failed that
tells the commit or goes back to one. -/
def WayBack (head : String) (r : Repo Entry) (l : List (Deed Entry)) (r' : Repo Entry)
    (result : Except Failure Unit) : Prop :=
  l.filter Deed.pops = [] ∧ r'.stash = r.stash ∧ (result = .ok () → r'.head = head) ∧
    ∀ e, result = .error e → ¬ Located l

theorem WayBack.cons {head : String} {r r₁ r' : Repo Entry} {l : List (Deed Entry)} {x : Deed Entry}
    {result : Except Failure Unit} (h : WayBack head r₁ l r' result) (hx : x.pops = false)
    (hr : r₁.stash = r.stash) : WayBack head r (x :: l) r' result := by
  obtain ⟨hp, hs, hok, herr⟩ := h
  refine ⟨?_, hs.trans hr, hok, fun e he hl => herr e he hl.of_cons⟩
  rw [List.filter_cons_of_neg (by simp [hx]), hp]

theorem wayBack_failed {head : String} {r r' : Repo Entry} {x : Deed Entry} {e : Failure} (hr : r'.stash = r.stash)
    (hp : x.pops = false) (hl : x.locates = true) (hf : x.failed = true) : WayBack head r [x] r' (.error e) := by
  refine ⟨?_, hr, by simp, fun _ _ h => ?_⟩
  · rw [List.filter_cons_of_neg (by simp [hp])]
    rfl
  · rw [h x (List.mem_singleton_self x) hl] at hf
    cases hf

theorem resetHard_assured (head : String) (r : Repo Entry) :
    Assured (fun l r' res => WayBack head r l r' res ∧ (res = .ok () → r'.merging = false)) r
      (repository (.resetHard head)) := by
  rintro (e | ⟨⟩) r' hr
  · exact ⟨wayBack_failed hr rfl rfl rfl, by simp⟩
  · obtain rfl := hr
    exact ⟨⟨rfl, rfl, fun _ => rfl, by simp⟩, fun _ => rfl⟩

theorem returnTo_assured (head : String) (r : Repo Entry) :
    Assured (fun l r' res => WayBack head r l r' res ∧ (res = .ok () → r.merging = false → r'.merging = false)) r
      (returnTo head) := by
  rintro (e | now) r' hr
  · obtain rfl := hr
    exact ⟨wayBack_failed rfl rfl rfl rfl, by simp⟩
  · obtain ⟨rfl, rfl⟩ := hr
    refine Assured.ite (fun hhead => ?_) fun _ => ?_
    · exact ⟨⟨rfl, rfl, fun _ => hhead, by simp⟩, fun _ h => h⟩
    · refine (resetHard_assured head r').mono ?_
      rintro l s res ⟨hw, hm⟩
      exact ⟨hw.cons rfl rfl, fun h _ => hm h⟩

theorem rollback_assured (head : String) (conflicted : Bool) (r : Repo Entry) :
    Assured (fun l r' res => WayBack head r l r' res ∧ (res = .ok () → conflicted = true → r'.merging = false)) r
      (rollback head conflicted) := by
  rintro (e | ⟨⟩) r' hr
  · refine Assured.ite (fun _ => ?_) fun hc => ?_
    · rintro ⟨⟩ r₁ rfl
      refine (resetHard_assured head r₁).mono ?_
      rintro l s res ⟨hw, hm⟩
      exact ⟨(WayBack.cons hw rfl rfl).cons rfl hr, fun h _ => hm h⟩
    · rintro ⟨⟩ r₁ rfl
      refine (returnTo_assured head r₁).mono ?_
      rintro l s res ⟨hw, -⟩
      exact ⟨(WayBack.cons hw rfl rfl).cons rfl hr, fun _ h => absurd h hc⟩
  · obtain ⟨hm, hr⟩ := hr
    refine (returnTo_assured head r').mono ?_
    rintro l s res ⟨hw, hs⟩
    exact ⟨hw.cons rfl hr, fun h _ => hs h hm⟩

/-! ### Merging -/

/-- What an attempt to merge leaves: all is settled, and what is put aside is left alone. -/
def Tried (head : String) (r : Repo Entry) (l : List (Deed Entry)) (r' : Repo Entry)
    (result : Except Failure MergeOutcome) : Prop :=
  l.filter Deed.pops = [] ∧ r'.stash = r.stash ∧ Settled head r l r' result ∧ result ≠ .ok .interrupted

theorem attempt_assured (head branch message : String) (r : Repo Entry) :
    Assured (Tried head r) r (attempt head branch message) := by
  rintro (e | (_ | files)) r' hr
  · rintro ⟨⟩ r₁ rfl
    refine (rollback_assured head false r₁).andThen ?_
    rintro l s (e' | ⟨⟩) ⟨⟨hp, hs, hok, herr⟩, -⟩
    · refine ⟨?_, hs.trans hr, fun hl _ => ?_, by simp⟩
      · simpa [Deed.pops] using hp
      · exact absurd (located_append.mp hl.of_cons.of_cons).1 (herr _ rfl)
    · refine ⟨?_, hs.trans hr, fun _ _ => ⟨hok rfl, hs.trans hr⟩, by simp⟩
      simpa [Deed.pops] using hp
  · rintro ⟨⟩ r₁ rfl
    refine ⟨rfl, hr, ⟨⟨_, rfl, rfl⟩, ?_, hr⟩, by simp⟩
    simp [Deed.undoes]
  · rintro ⟨⟩ r₁ rfl
    refine (rollback_assured head true r₁).andThen ?_
    rintro l s (e' | ⟨⟩) ⟨⟨hp, hs, hok, herr⟩, hm⟩
    · refine ⟨?_, hs.trans hr, fun hl _ => ?_, by simp⟩
      · simpa [Deed.pops] using hp
      · exact absurd (located_append.mp hl.of_cons.of_cons).1 (herr _ rfl)
    · refine ⟨?_, hs.trans hr, ⟨hok rfl, hm rfl rfl, hs.trans hr⟩, by simp⟩
      simpa [Deed.pops] using hp

/-! ### Bringing back what was put aside -/

theorem restore_assured (head : String) (r : Repo Entry) :
    Assured (fun l r' res => (res = .ok () → r'.head = head ∧ r'.merging = false ∧ ∃ e, r.stash = e :: r'.stash) ∧
      ∀ e, res = .error e → Lost l) r (restore head) := by
  rintro (e | ⟨⟩) r₁ hr
  · refine ⟨by simp, fun _ _ hl => ?_⟩
    exact absurd (hl _ (List.mem_singleton_self _) rfl) (by simp [Deed.failed])
  · obtain rfl := hr
    rintro (e | ⟨⟩) r' hr
    · refine ⟨by simp, fun _ _ _ hb => ?_⟩
      exact absurd (hb _ rfl) (by simp [Deed.failed])
    · obtain ⟨e, he⟩ := hr
      rw [Repo.mk.injEq] at he
      obtain ⟨hhead, hmerging, hstash⟩ := he
      exact ⟨fun _ => ⟨hhead.symm, hmerging.symm, e, hstash⟩, by simp⟩

/-- What bringing back makes of an attempt to merge: its end stands and so does the repository, or it is undone
and has not landed, or bringing back failed. -/
inductive Brought (head : String) (result : Except Failure MergeOutcome) (r : Repo Entry) (l : List (Deed Entry))
    (r' : Repo Entry) : Except Failure MergeOutcome → Prop
  | kept (hm : l.filter Deed.merges = []) (hu : ∀ x ∈ l, x.undoes = false)
      (hr : ∃ e, r = { r' with stash := e :: r'.stash }) : Brought head result r l r' result
  | undone {result' : Except Failure MergeOutcome} (hh : r'.head = head) (hm : r'.merging = false)
      (hs : ∃ e, r.stash = e :: r'.stash)
      (hr : (∃ files, result' = .ok (.conflict files)) ∨ result' = result ∧ result ≠ .ok .merged) :
      Brought head result r l r' result'
  | failed {e : Failure} (hl : Lost l) : Brought head result r l r' (.error e)

theorem bringBack_assured (head : String) (paths : List String) (result : Except Failure MergeOutcome)
    (r : Repo Entry) : Assured (Brought head result r) r (bringBack head paths result) := by
  rintro (e | ⟨⟩) r₁ hr
  · rintro ⟨⟩ r₂ rfl
    refine (restore_assured head r₂).andThen ?_
    rintro l s (e' | ⟨⟩) ⟨hok, herr⟩
    · have hl : Lost (l ++ []) := (List.append_nil l).symm ▸ herr e' rfl
      exact .failed hl.cons.cons
    · obtain ⟨hh, hm, hs⟩ := hok rfl
      rw [hr] at hs
      match result with
      | .ok .merged => exact .undone hh hm hs (.inl ⟨paths, rfl⟩)
      | .ok (.conflict files) => exact .undone hh hm hs (.inl ⟨files, rfl⟩)
      | .ok .interrupted => exact .undone hh hm hs (.inr ⟨rfl, by simp⟩)
      | .error _ => exact .undone hh hm hs (.inr ⟨rfl, by simp⟩)
  · exact .kept rfl (by simp [Deed.undoes]) hr

/-- An attempt to merge and bringing back what was put aside before it settle what began before that. -/
theorem Tried.settled {head : String} {r r₁ r₂ r' : Repo Entry} {l₁ l₂ : List (Deed Entry)} {e : Entry}
    {result result' : Except Failure MergeOutcome} (ht : Tried head r₁ l₁ r₂ result)
    (hr : r₁.stash = e :: r.stash) (hb : Brought head result r₂ l₂ r' result') :
    Settled head r (l₁ ++ l₂) r' result' ∧ result' ≠ .ok .interrupted := by
  obtain ⟨hp, hs, hset, hne⟩ := ht
  rw [hr] at hs
  cases hb with
  | kept hm hu hr =>
    obtain ⟨e', rfl⟩ := hr
    obtain ⟨-, hs⟩ := List.cons.inj hs
    refine ⟨?_, hne⟩
    match result with
    | .ok .merged =>
      obtain ⟨⟨x, hx, hhead⟩, hnone, -⟩ := hset
      refine ⟨⟨x, ?_, hhead⟩, List.forall_mem_append.mpr ⟨hnone, hu⟩, hs⟩
      rw [List.filter_append, hx, hm]
      rfl
    | .ok (.conflict _) => exact ⟨hset.1, hset.2.1, hs⟩
    | .ok .interrupted => exact absurd rfl hne
    | .error _ => exact fun hl _ => ⟨(hset (located_append.mp hl).1 (.of_none hp)).1, hs⟩
  | undone hh hm hs' hr =>
    obtain ⟨e', hs'⟩ := hs'
    obtain ⟨-, hs⟩ := List.cons.inj (hs'.symm.trans hs)
    rcases hr with ⟨files, rfl⟩ | ⟨rfl, hr⟩
    · exact ⟨⟨hh, hm, hs⟩, by simp⟩
    · refine ⟨?_, hne⟩
      match result' with
      | .ok .merged => exact absurd rfl hr
      | .ok (.conflict _) => exact ⟨hh, hm, hs⟩
      | .ok .interrupted => exact absurd rfl hne
      | .error _ => exact fun _ _ => ⟨hh, hs⟩
  | failed hl => exact ⟨fun hl' hb' => absurd hb' (hl.append hl'), by simp⟩

/-! ### The whole -/

theorem withoutChanges_assured (w : Workspace) (message head : String) (paths : List String) (r : Repo Entry)
    (hr : r.head = head) :
    Assured (fun l r' res => Settled head r l r' res ∧ res ≠ .ok .interrupted) r
      (withoutChanges w message head paths) := by
  refine Assured.ite (fun _ => ?_) fun _ => ?_
  · exact (attempt_assured head w.branch message r).mono fun _ _ _ h => h.2.2
  · rintro (e | ⟨⟩) r₁ hr₁
    · obtain rfl := hr₁
      exact ⟨fun _ _ => ⟨hr, rfl⟩, by simp⟩
    · obtain ⟨e, rfl⟩ := hr₁
      rintro ⟨⟩ r₂ rfl
      refine (attempt_assured head w.branch message _).andThen fun l₁ r₃ result ht => ?_
      refine (bringBack_assured head paths result r₃).mono fun l₂ r' result' hb => ?_
      obtain ⟨h, hne⟩ := ht.settled (r := r) rfl hb
      exact ⟨(h.cons (fun _ => hne) rfl rfl).cons (fun _ => hne) rfl rfl, hne⟩

theorem around_assured (x : Exclusions) (w : Workspace) (message head : String) (r : Repo Entry)
    (hr : r.head = head) :
    Assured (fun l r' res => Settled head r l r' res ∧ res ≠ .ok .interrupted) r (around x w message head) := by
  rintro (e | files) r₁ hr₁
  · obtain rfl := hr₁
    exact ⟨fun _ _ => ⟨hr, rfl⟩, by simp⟩
  · obtain rfl := hr₁
    rintro present r₂ rfl
    refine Assured.ite (fun _ => ?_) fun _ => ?_
    · refine (withoutChanges_assured w message head _ r₂ hr).mono fun l r' res h => ?_
      exact ⟨(h.1.cons (fun _ => h.2) rfl rfl).cons (fun _ => h.2) rfl rfl, h.2⟩
    · rintro ⟨⟩ r₃ rfl
      refine (withoutChanges_assured w message head _ r₃ hr).mono fun l r' res h => ?_
      exact ⟨((h.1.cons (fun _ => h.2) rfl rfl).cons (fun _ => h.2) rfl rfl).cons (fun _ => h.2) rfl rfl, h.2⟩

theorem underLock_assured (x : Exclusions) (w : Workspace) (message : String) (r : Repo Entry) :
    Assured (Settled r.head r) r (underLock x w message) := by
  rintro (_ | _) r₁ rfl
  · rintro (e | head) r₂ hr
    · obtain rfl := hr
      exact fun _ _ => ⟨rfl, rfl⟩
    · obtain ⟨rfl, rfl⟩ := hr
      refine (around_assured x w message _ r₂ rfl).mono fun l r' res h => ?_
      exact (h.1.cons (fun _ => h.2) rfl rfl).cons (by simp [Deed.onRepository]) rfl rfl
  · rintro ⟨⟩ r₂ rfl
    intro y hy
    simp only [List.mem_cons, List.not_mem_nil, or_false] at hy
    rcases hy with rfl | rfl
    · rfl
    · rfl

theorem integrate_assured (x : Exclusions) (w : Workspace) (message : String) (r : Repo Entry) :
    Assured (Settled r.head r) r (integrate x w message) := by
  rintro ⟨⟩ r₁ rfl
  refine (underLock_assured x w message r₁).andThen fun l r' res h => ?_
  rintro ⟨⟩ r₂ rfl
  exact (h.cons (by simp [Deed.onRepository]) rfl rfl).snoc rfl rfl rfl rfl

/-- However the calls on it are answered, a merge leaves the repository as its end says. -/
theorem settled_of_course {x : Exclusions} {w : Workspace} {message : String} {r r' : Repo Entry}
    {l : List (Deed Entry)} {result : Except Failure MergeOutcome}
    (h : Course r (integrate x w message) l r' result) : Settled r.head r l r' result :=
  (integrate_assured x w message r).of_course h

/-- A course in which the merge lands, but the changes that were put aside do not fit. -/
theorem exists_clash : ∃ l : List (Deed Unit), Course ⟨"old", false, []⟩
      (integrate {} ⟨"item", "branch", "dir"⟩ "message") l ⟨"old", false, []⟩ (.ok (.conflict ["file"])) ∧
    (l.filter Deed.merges).map (·.after.head) = ["new"] := by
  let old : Repo Unit := ⟨"old", false, []⟩
  let aside : Repo Unit := ⟨"old", false, [()]⟩
  let new : Repo Unit := ⟨"new", false, [()]⟩
  exact ⟨[⟨.lock, (), old⟩, ⟨.interrupted, false, old⟩, ⟨.repository .head, .ok "old", old⟩,
    ⟨.repository .dirtyFiles, .ok [⟨"file", .modified⟩], old⟩, ⟨.repository .existing, fun _ => false, old⟩,
    ⟨.repository (.stashPush _ _), .ok (), aside⟩, ⟨.write _, (), aside⟩,
    ⟨.repository (.merge _ _), .ok .merged, new⟩, ⟨.write _, (), new⟩,
    ⟨.repository .stashPop, .error ⟨[], "clash", [], none⟩, new⟩, ⟨.write _, (), new⟩,
    ⟨.repository (.resetMerge _), .ok (), aside⟩, ⟨.repository .stashPop, .ok (), old⟩, ⟨.unlock, (), old⟩],
    .ask rfl <| .ask rfl <| .ask ⟨rfl, rfl⟩ <| .ask rfl <| .ask rfl <| .ask ⟨(), rfl⟩ <| .ask rfl <|
      .ask rfl <| .ask rfl <| .ask rfl <| .ask rfl <| .ask rfl <| .ask ⟨(), rfl⟩ <| .ask rfl <| .done _ _, rfl⟩

theorem settled_of_clash : ∃ l : List (Deed Unit), Course ⟨"old", false, []⟩
      (integrate {} ⟨"item", "branch", "dir"⟩ "message") l ⟨"old", false, []⟩ (.ok (.conflict ["file"])) ∧
    (l.filter Deed.merges).map (·.after.head) = ["new"] ∧
    Settled "old" ⟨"old", false, []⟩ l ⟨"old", false, []⟩ (.ok (.conflict ["file"])) := by
  obtain ⟨l, hl, hm⟩ := exists_clash
  exact ⟨l, hl, hm, settled_of_course hl⟩

end WorkWaves.Merge
