import WorkWaves.Dialogue

/-!
# What can happen in a dialogue

`Leads`: a dialogue comes by some questions and answers to the one that is left; `Leads d h (.done a)` is a
whole course of it. `Wholly`: all whole courses and their ends are as wanted. `Safe`: a watcher that follows the
questions and answers never sees a question that it does not allow, whatever the answers are. `Within`: no course has
more questions than a bound. `Yields` and `Sees`: what a dialogue ends in and what is seen on the way, where a medium
can answer in several ways and is in other states while it does; `Keeps`: all that is as wanted.
-/

namespace WorkWaves.Dialogue

variable {Call Call' : Type} {Answer : Call → Type} {Answer' : Call' → Type} {α β κ : Type}

/-- A question and the answer to it. -/
abbrev Exchange (Call : Type) (Answer : Call → Type) := (c : Call) × Answer c

/-- A dialogue comes by some exchanges to what is left of it. -/
inductive Leads : Dialogue Call Answer α → List (Exchange Call Answer) → Dialogue Call Answer α → Prop
  | refl (d : Dialogue Call Answer α) : Leads d [] d
  | ask {c : Call} {k : Answer c → Dialogue Call Answer α} {r : Answer c} {h : List (Exchange Call Answer)}
      {d : Dialogue Call Answer α} : Leads (k r) h d → Leads (.ask c k) (⟨c, r⟩ :: h) d

namespace Leads

theorem snoc {d : Dialogue Call Answer α} {h : List (Exchange Call Answer)} {c : Call}
    {k : Answer c → Dialogue Call Answer α} (hd : Leads d h (.ask c k)) (r : Answer c) :
    Leads d (h ++ [⟨c, r⟩]) (k r) := by
  generalize he : Dialogue.ask c k = e at hd
  induction hd with
  | refl d => subst he; exact .ask (.refl _)
  | ask _ ih => exact .ask (ih he)

theorem done_done {a b : α} {h : List (Exchange Call Answer)} :
    Leads (.done a) h (.done b) ↔ h = [] ∧ a = b := by
  constructor
  · intro hd
    cases hd
    exact ⟨rfl, rfl⟩
  · rintro ⟨rfl, rfl⟩
    exact .refl _

theorem ask_done {c : Call} {k : Answer c → Dialogue Call Answer α} {b : α}
    {h : List (Exchange Call Answer)} :
    Leads (.ask c k) h (.done b) ↔ ∃ r t, h = ⟨c, r⟩ :: t ∧ Leads (k r) t (.done b) := by
  constructor
  · intro hd
    cases hd with
    | ask hd => exact ⟨_, _, rfl, hd⟩
  · rintro ⟨r, t, rfl, hd⟩
    exact .ask hd

/-- A course of two dialogues in a row is a course of the first and one of the second. -/
theorem andThen_done {d : Dialogue Call Answer α} {f : α → Dialogue Call Answer β} {b : β}
    {h : List (Exchange Call Answer)} :
    Leads (d.andThen f) h (.done b) ↔
      ∃ a h₁ h₂, h = h₁ ++ h₂ ∧ Leads d h₁ (.done a) ∧ Leads (f a) h₂ (.done b) := by
  induction d generalizing h with
  | done a =>
    simp only [andThen, done_done]
    constructor
    · exact fun hd => ⟨a, [], h, rfl, ⟨rfl, rfl⟩, hd⟩
    · rintro ⟨_, _, h₂, rfl, ⟨rfl, rfl⟩, hd⟩
      exact hd
  | ask c k ih =>
    simp only [andThen, ask_done, ih]
    constructor
    · rintro ⟨r, _, rfl, a, h₁, h₂, rfl, hd, hf⟩
      exact ⟨a, ⟨c, r⟩ :: h₁, h₂, rfl, ⟨r, h₁, rfl, hd⟩, hf⟩
    · rintro ⟨a, _, h₂, rfl, ⟨r, h₁, rfl, hd⟩, hf⟩
      exact ⟨r, h₁ ++ h₂, rfl, a, h₁, h₂, rfl, hd, hf⟩

/-- Two whole courses of a dialogue that begin alike are the same. -/
theorem unique {d : Dialogue Call Answer α} {a b : α} {h h' t u : List (Exchange Call Answer)}
    (hd : Leads d h (.done a)) (hd' : Leads d h' (.done b)) (he : h ++ t = h' ++ u) : h = h' ∧ a = b := by
  induction d generalizing h h' with
  | done c =>
    obtain ⟨rfl, rfl⟩ := done_done.mp hd
    obtain ⟨rfl, rfl⟩ := done_done.mp hd'
    exact ⟨rfl, rfl⟩
  | ask c k ih =>
    obtain ⟨r, g, rfl, hg⟩ := ask_done.mp hd
    obtain ⟨r', g', rfl, hg'⟩ := ask_done.mp hd'
    injection he with hr he
    cases hr
    obtain ⟨rfl, hab⟩ := ih _ hg hg' he
    exact ⟨rfl, hab⟩

theorem append {d e t : Dialogue Call Answer α} {h g : List (Exchange Call Answer)} (hd : Leads d h e)
    (he : Leads e g t) : Leads d (h ++ g) t := by
  induction hd with
  | refl d => exact he
  | ask _ ih => exact .ask (ih he)

theorem exists_ask {d t : Dialogue Call Answer α} {h g : List (Exchange Call Answer)} {x : Exchange Call Answer}
    (hd : Leads d (h ++ x :: g) t) :
    ∃ k, Leads d h (.ask x.1 k) := by
  induction h generalizing d with
  | nil =>
    cases hd with
    | ask hd => exact ⟨_, .refl _⟩
  | cons y h ih =>
    cases hd with
    | ask hd =>
      obtain ⟨k, hk⟩ := ih hd
      exact ⟨k, .ask hk⟩

end Leads

/-- If every question can be answered, a dialogue can be brought to its end. -/
theorem exists_done (hn : ∀ c, Nonempty (Answer c)) (d : Dialogue Call Answer α) : ∃ h a, Leads d h (.done a) := by
  induction d with
  | done a => exact ⟨[], a, .refl _⟩
  | ask c k ih =>
    obtain ⟨r⟩ := hn c
    obtain ⟨h, a, hk⟩ := ih r
    exact ⟨⟨c, r⟩ :: h, a, .ask hk⟩

/-- Whenever all answers satisfy `P`, what the dialogue ends in satisfies `Q`. -/
def Ends (P : Exchange Call Answer → Prop) (Q : α → Prop) : Dialogue Call Answer α → Prop
  | .done a => Q a
  | .ask c k => ∀ r, P ⟨c, r⟩ → Ends P Q (k r)

namespace Ends

variable {P : Exchange Call Answer → Prop} {Q : α → Prop}

theorem leads {d : Dialogue Call Answer α} {h : List (Exchange Call Answer)} {a : α} (hd : Ends P Q d)
    (hl : Leads d h (.done a)) (hp : ∀ x ∈ h, P x) : Q a := by
  induction d generalizing h with
  | done b =>
    obtain ⟨-, rfl⟩ := Leads.done_done.mp hl
    exact hd
  | ask c k ih =>
    obtain ⟨r, t, rfl, ht⟩ := Leads.ask_done.mp hl
    obtain ⟨hr, hp⟩ := List.forall_mem_cons.mp hp
    exact ih r (hd r hr) ht hp

theorem andThen {R : β → Prop} {d : Dialogue Call Answer α} {f : α → Dialogue Call Answer β} (hd : Ends P Q d)
    (hf : ∀ a, Q a → Ends P R (f a)) : Ends P R (d.andThen f) := by
  induction d with
  | done a => exact hf a hd
  | ask c k ih => exact fun r hr => ih r (hd r hr)

end Ends

/-! ### Whole courses -/

/-- However the dialogue is answered, its whole course and its end are as wanted. -/
def Wholly (Q : List (Exchange Call Answer) → α → Prop) : Dialogue Call Answer α → Prop
  | .done a => Q [] a
  | .ask c k => ∀ r, Wholly (fun h => Q (⟨c, r⟩ :: h)) (k r)

namespace Wholly

variable {P Q : List (Exchange Call Answer) → α → Prop}

theorem leads {d : Dialogue Call Answer α} {h : List (Exchange Call Answer)} {a : α} (hd : Wholly Q d)
    (hl : Leads d h (.done a)) : Q h a := by
  induction d generalizing Q h with
  | done b =>
    obtain ⟨rfl, rfl⟩ := Leads.done_done.mp hl
    exact hd
  | ask c k ih =>
    obtain ⟨r, t, rfl, ht⟩ := Leads.ask_done.mp hl
    exact ih r (Q := fun h => Q (⟨c, r⟩ :: h)) (hd r) ht

theorem all (d : Dialogue Call Answer α) (h : ∀ h a, Q h a) : Wholly Q d := by
  induction d generalizing Q with
  | done a => exact h [] a
  | ask c k ih => exact fun r => ih r fun t a => h (_ :: t) a

theorem mono {d : Dialogue Call Answer α} (hd : Wholly P d) (hPQ : ∀ h a, P h a → Q h a) : Wholly Q d := by
  induction d generalizing P Q with
  | done a => exact hPQ [] a hd
  | ask c k ih => exact fun r => ih r (hd r) fun h a => hPQ (_ :: h) a

theorem andThen {R : List (Exchange Call Answer) → β → Prop} {d : Dialogue Call Answer α}
    {f : α → Dialogue Call Answer β} (hd : Wholly P d) (hf : ∀ h a, P h a → Wholly (fun h' => R (h ++ h')) (f a)) :
    Wholly R (d.andThen f) := by
  induction d generalizing P R with
  | done a => exact hf [] a hd
  | ask c k ih => exact fun r => ih r (hd r) fun h a => hf (_ :: h) a

theorem ite {p : Prop} [Decidable p] {d e : Dialogue Call Answer α} (hd : p → Wholly Q d) (he : ¬ p → Wholly Q e) :
    Wholly Q (if p then d else e) := by
  split
  · next hp => exact hd hp
  · next hp => exact he hp

end Wholly

/-! ### Watched dialogues -/

/-- A watcher in state `s` allows all that is asked, and what the dialogue ends in suits the watcher. -/
def Safe (allow : κ → Call → Prop) (next : κ → Exchange Call Answer → κ) (Q : κ → α → Prop) :
    κ → Dialogue Call Answer α → Prop
  | s, .done a => Q s a
  | s, .ask c k => allow s c ∧ ∀ r, Safe allow next Q (next s ⟨c, r⟩) (k r)

namespace Safe

variable {allow : κ → Call → Prop} {next : κ → Exchange Call Answer → κ} {Q : κ → α → Prop} {s : κ}

theorem leads {d t : Dialogue Call Answer α} {h : List (Exchange Call Answer)} (hs : Safe allow next Q s d)
    (hd : Leads d h t) : Safe allow next Q (h.foldl next s) t := by
  induction hd generalizing s with
  | refl d => exact hs
  | ask _ ih => exact ih (hs.2 _)

/-- Each question of a course was allowed when it was asked. -/
theorem allowed {d t : Dialogue Call Answer α} {pre post : List (Exchange Call Answer)} {x : Exchange Call Answer}
    (hs : Safe allow next Q s d) (hd : Leads d (pre ++ x :: post) t) : allow (pre.foldl next s) x.1 := by
  induction pre generalizing s d with
  | nil =>
    cases hd with
    | ask _ => exact hs.1
  | cons y pre ih =>
    cases hd with
    | ask hd => exact ih (hs.2 _) hd

theorem andThen {P : κ → β → Prop} {d : Dialogue Call Answer α} {f : α → Dialogue Call Answer β}
    (hd : Safe allow next Q s d) (hf : ∀ s a, Q s a → Safe allow next P s (f a)) :
    Safe allow next P s (d.andThen f) := by
  induction d generalizing s with
  | done a => exact hf s a hd
  | ask c k ih => exact ⟨hd.1, fun r => ih r (hd.2 r)⟩

theorem mono {P : κ → α → Prop} {d : Dialogue Call Answer α} (hd : Safe allow next Q s d)
    (h : ∀ s a, Q s a → P s a) : Safe allow next P s d := by
  induction d generalizing s with
  | done a => exact h s a hd
  | ask c k ih => exact ⟨hd.1, fun r => ih r (hd.2 r)⟩

variable (next s) in
/-- A watcher that allows everything sees nothing that it does not allow. -/
theorem all (d : Dialogue Call Answer α) : Safe (fun _ _ => True) next (fun _ _ => True) s d := by
  induction d generalizing s with
  | done a => trivial
  | ask c k ih => exact ⟨trivial, fun r => ih r _⟩

theorem ite {p : Prop} [Decidable p] {d e : Dialogue Call Answer α} (hd : p → Safe allow next Q s d)
    (he : ¬ p → Safe allow next Q s e) : Safe allow next Q s (if p then d else e) := by
  split
  · next hp => exact hd hp
  · next hp => exact he hp

/-- A dialogue carried on inside another is safe there if each of its questions is. -/
theorem within {allow' : κ → Call' → Prop} {next' : κ → Exchange Call' Answer' → κ}
    {f : (c : Call) → Dialogue Call' Answer' (Answer c)} {d : Dialogue Call Answer α}
    (hd : Safe allow next Q s d)
    (hf : ∀ s c, allow s c → Safe allow' next' (fun s' r => s' = next s ⟨c, r⟩) s (f c)) :
    Safe allow' next' Q s (d.within f) := by
  induction d generalizing s with
  | done a => exact hd
  | ask c k ih =>
    refine (hf s c hd.1).andThen fun s' r hr => ?_
    subst hr
    exact ih r (hd.2 r)

end Safe

/-! ### The length of dialogues -/

/-- No course of the dialogue has more questions than `n`. -/
def Within : Dialogue Call Answer α → Nat → Prop
  | .done _, _ => True
  | .ask _ _, 0 => False
  | .ask _ k, n + 1 => ∀ r, Within (k r) n

namespace Within

variable {m n : Nat}

theorem mono {d : Dialogue Call Answer α} (h : d.Within m) (hmn : m ≤ n) : d.Within n := by
  induction d generalizing m n with
  | done a => trivial
  | ask c k ih =>
    match m, n, hmn with
    | 0, _, _ => exact h.elim
    | m + 1, n + 1, hmn => exact fun r => ih r (h r) (by omega)

theorem andThen {d : Dialogue Call Answer α} {f : α → Dialogue Call Answer β} (hd : d.Within m)
    (hf : ∀ a, (f a).Within n) : (d.andThen f).Within (m + n) := by
  induction d generalizing m with
  | done a => exact (hf a).mono (by omega)
  | ask c k ih =>
    match m with
    | 0 => exact hd.elim
    | m + 1 =>
      rw [Nat.add_right_comm]
      exact fun r => ih r (hd r)

theorem ite {p : Prop} [Decidable p] {d e : Dialogue Call Answer α} (hd : p → d.Within n) (he : ¬ p → e.Within n) :
    (if p then d else e).Within n := by
  split
  · next hp => exact hd hp
  · next hp => exact he hp

/-- A dialogue is no longer inside another that passes each question on as one. -/
theorem within {f : (c : Call) → Dialogue Call' Answer' (Answer c)} {d : Dialogue Call Answer α}
    (hd : d.Within n) (hf : ∀ c, (f c).Within 1) : (d.within f).Within n := by
  induction d generalizing n with
  | done a => trivial
  | ask c k ih =>
    match n with
    | 0 => exact hd.elim
    | n + 1 =>
      rw [Nat.add_comm]
      exact (hf c).andThen fun r => ih r (hd r)

theorem leads {d t : Dialogue Call Answer α} {h : List (Exchange Call Answer)} (hd : d.Within n)
    (hl : Leads d h t) : h.length ≤ n ∧ t.Within (n - h.length) := by
  induction hl generalizing n with
  | refl d => exact ⟨Nat.zero_le _, hd⟩
  | ask _ ih =>
    match n with
    | 0 => exact hd.elim
    | n + 1 =>
      obtain ⟨hle, ht⟩ := ih (hd _)
      simp only [List.length_cons]
      refine ⟨by omega, ?_⟩
      rwa [Nat.add_sub_add_right]

end Within

/-! ### What a medium makes of dialogues -/

section Medium

variable {σ τ : Type} {during : Call → σ → σ → Prop} {ends : (c : Call) → σ → Answer c → σ → Prop}

/-- What a dialogue can end in, and the state then, where a medium answers as `ends` says. -/
inductive Yields (ends : (c : Call) → σ → Answer c → σ → Prop) : Dialogue Call Answer α → σ → α → σ → Prop
  | done (a : α) (s : σ) : Yields ends (.done a) s a s
  | ask {c : Call} {k : Answer c → Dialogue Call Answer α} {r : Answer c} {s s' t : σ} {a : α} (h : ends c s r s')
      (hk : Yields ends (k r) s' a t) : Yields ends (.ask c k) s a t

/-- What can be seen of a medium between the questions of a dialogue and, as `during` says, in the course of each. -/
inductive Sees (during : Call → σ → σ → Prop) (ends : (c : Call) → σ → Answer c → σ → Prop) :
    Dialogue Call Answer α → σ → σ → Prop
  | now (d : Dialogue Call Answer α) (s : σ) : Sees during ends d s s
  | during {c : Call} {k : Answer c → Dialogue Call Answer α} {s t : σ} (h : during c s t) :
      Sees during ends (.ask c k) s t
  | later {c : Call} {k : Answer c → Dialogue Call Answer α} {r : Answer c} {s s' t : σ} (h : ends c s r s')
      (hk : Sees during ends (k r) s' t) : Sees during ends (.ask c k) s t

/-- Where a state is an image of a medium, and each answer that it gives is one of the medium, what it makes of a
dialogue is one of the ways in which that can end. -/
theorem Yields.of_run {R : σ → τ → Prop} {answer : (c : Call) → τ → Answer c × τ}
    (hanswer : ∀ c s t, R s t → ∃ s', ends c s (answer c t).1 s' ∧ R s' (answer c t).2)
    (d : Dialogue Call Answer α) {s : σ} {t : τ} (h : R s t) :
    ∃ s', Yields ends d s (d.run answer t).1 s' ∧ R s' (d.run answer t).2 := by
  induction d generalizing s t with
  | done a => exact ⟨s, .done a s, h⟩
  | ask c k ih =>
    obtain ⟨s', hend, hs'⟩ := hanswer c s t h
    obtain ⟨s'', hk, hs''⟩ := ih (answer c t).1 hs'
    exact ⟨s'', .ask hend hk, hs''⟩

/-- Whatever the medium does, what is seen of it satisfies `P`, and what the dialogue ends in satisfies `Q`. -/
def Keeps (during : Call → σ → σ → Prop) (ends : (c : Call) → σ → Answer c → σ → Prop) (P : σ → Prop)
    (Q : α → σ → Prop) : Dialogue Call Answer α → σ → Prop
  | .done a, s => P s ∧ Q a s
  | .ask c k, s => P s ∧ (∀ s', during c s s' → P s') ∧ ∀ r s', ends c s r s' → Keeps during ends P Q (k r) s'

namespace Keeps

variable {P : σ → Prop} {Q : α → σ → Prop} {d : Dialogue Call Answer α} {s t : σ} {a : α}

theorem now (h : Keeps during ends P Q d s) : P s := by
  cases d <;> exact h.1

theorem sees (h : Keeps during ends P Q d s) (hs : Sees during ends d s t) : P t := by
  induction hs with
  | now d s => exact h.now
  | during hd => exact h.2.1 _ hd
  | later he _ ih => exact ih (h.2.2 _ _ he)

theorem yields (h : Keeps during ends P Q d s) (hy : Yields ends d s a t) : Q a t := by
  induction hy with
  | done a s => exact h.2
  | ask he _ ih => exact ih (h.2.2 _ _ he)

theorem andThen {R : β → σ → Prop} {f : α → Dialogue Call Answer β} (h : Keeps during ends P Q d s)
    (hf : ∀ a s, Q a s → Keeps during ends P R (f a) s) : Keeps during ends P R (d.andThen f) s := by
  induction d generalizing s with
  | done a => exact hf a s h.2
  | ask c k ih => exact ⟨h.1, h.2.1, fun r s' he => ih r (h.2.2 r s' he)⟩

end Keeps

end Medium

end WorkWaves.Dialogue
