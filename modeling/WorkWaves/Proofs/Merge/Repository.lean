import WorkWaves.Merge.Integration

/-!
# A merge held with a repository

The repository as a merge sees it: the commit it is on, whether a merge is in progress, and what is put aside.
`Repo.Step` says what a call may do to it, for every answer that the call may give. `Course` is a whole run of a
dialogue with a repository, deed by deed; `Assured` holds of a dialogue when all its courses come to a good end.
-/

namespace WorkWaves.Merge

variable {Entry α β : Type}

/-- A repository. -/
structure Repo (Entry : Type) where
  head : String
  /-- Whether a merge is in progress. -/
  merging : Bool
  /-- What is put aside, the latest first. -/
  stash : List Entry

/-- What a call on the repository may do, given its answer. A merge may leave it on any commit, in a merge or
not, and so may an abort, a reset or a pop that fails. -/
def Repo.Answers (r : Repo Entry) : (c : RepositoryCall) → c.Answer → Repo Entry → Prop
  | .head, .ok h, r' => h = r.head ∧ r' = r
  | .head, .error _, r' => r' = r
  | .dirtyFiles, _, r' => r' = r
  | .existing, _, r' => r' = r
  | .stashPush _ _, .ok (), r' => ∃ e, r' = { r with stash := e :: r.stash }
  | .stashPush _ _, .error _, r' => r' = r
  | .stashPop, .ok (), r' => ∃ e, r = { r' with stash := e :: r'.stash }
  | .stashPop, .error _, r' => r'.stash = r.stash
  | .merge _ _, _, r' => r'.stash = r.stash
  | .abort, .ok (), r' => r'.merging = false ∧ r'.stash = r.stash
  | .abort, .error _, r' => r'.stash = r.stash
  | .resetHard rev, .ok (), r' => r' = ⟨rev, false, r.stash⟩
  | .resetHard _, .error _, r' => r'.stash = r.stash
  | .resetMerge rev, .ok (), r' => r' = ⟨rev, false, r.stash⟩
  | .resetMerge _, .error _, r' => r'.stash = r.stash

/-- What a question of a merge may do to the repository; only calls on it do anything. -/
def Repo.Step (r : Repo Entry) : (c : MergeCall) → c.Answer → Repo Entry → Prop
  | .repository c, a, r' => r.Answers c a r'
  | .lock, _, r' | .unlock, _, r' | .interrupted, _, r' | .write _, _, r' => r' = r

/-- A question, the answer to it, and the repository afterwards. -/
structure Deed (Entry : Type) where
  call : MergeCall
  answer : call.Answer
  after : Repo Entry

namespace Deed

def onRepository : Deed Entry → Bool
  | ⟨.repository _, _, _⟩ => true
  | _ => false

def merges : Deed Entry → Bool
  | ⟨.repository (.merge _ _), _, _⟩ => true
  | _ => false

/-- Whether it aborts a merge or goes back to a commit. -/
def undoes : Deed Entry → Bool
  | ⟨.repository .abort, _, _⟩ | ⟨.repository (.resetHard _), _, _⟩ | ⟨.repository (.resetMerge _), _, _⟩ => true
  | _ => false

def pops : Deed Entry → Bool
  | ⟨.repository .stashPop, _, _⟩ => true
  | _ => false

/-- Whether it tells the commit of the repository or goes back to one. -/
def locates : Deed Entry → Bool
  | ⟨.repository .head, _, _⟩ | ⟨.repository (.resetHard _), _, _⟩ | ⟨.repository (.resetMerge _), _, _⟩ => true
  | _ => false

/-- Whether a call on the repository failed. -/
def failed : Deed Entry → Bool
  | ⟨.repository .head, (.error _ : Except Failure String), _⟩ => true
  | ⟨.repository .dirtyFiles, (.error _ : Except Failure (List DirtyFile)), _⟩ => true
  | ⟨.repository (.merge _ _), (.error _ : Except Failure MergeAttempt), _⟩ => true
  | ⟨.repository (.stashPush _ _), (.error _ : Except Failure Unit), _⟩ => true
  | ⟨.repository .stashPop, (.error _ : Except Failure Unit), _⟩ => true
  | ⟨.repository .abort, (.error _ : Except Failure Unit), _⟩ => true
  | ⟨.repository (.resetHard _), (.error _ : Except Failure Unit), _⟩ => true
  | ⟨.repository (.resetMerge _), (.error _ : Except Failure Unit), _⟩ => true
  | _ => false

end Deed

/-- A dialogue, held with a repository, comes by some deeds to its end and leaves a repository. -/
inductive Course : Repo Entry → Talk α → List (Deed Entry) → Repo Entry → α → Prop
  | done (r : Repo Entry) (a : α) : Course r (.done a) [] r a
  | ask {r r' s : Repo Entry} {c : MergeCall} {k : c.Answer → Talk α} {b : c.Answer} {l : List (Deed Entry)} {a : α} :
      r.Step c b r' → Course r' (k b) l s a → Course r (.ask c k) (⟨c, b, r'⟩ :: l) s a

/-- However the dialogue is answered, its deeds, the repository that it leaves and its end are as wanted. -/
def Assured (Q : List (Deed Entry) → Repo Entry → α → Prop) (r : Repo Entry) : Talk α → Prop
  | .done a => Q [] r a
  | .ask c k => ∀ b r', r.Step c b r' → Assured (fun l => Q (⟨c, b, r'⟩ :: l)) r' (k b)

namespace Assured

variable {P Q : List (Deed Entry) → Repo Entry → α → Prop} {r s : Repo Entry}

theorem of_course {d : Talk α} {l : List (Deed Entry)} {a : α} (hd : Course r d l s a) (h : Assured Q r d) :
    Q l s a := by
  induction hd generalizing Q with
  | done r a => exact h
  | ask hstep _ ih => exact ih (h _ _ hstep)

theorem mono {d : Talk α} (h : Assured P r d) (hPQ : ∀ l r' a, P l r' a → Q l r' a) : Assured Q r d := by
  induction d generalizing P Q r with
  | done a => exact hPQ [] r a h
  | ask c k ih => exact fun b r' hstep => ih b (h b r' hstep) fun l s a hP => hPQ (_ :: l) s a hP

theorem andThen {d : Talk α} {f : α → Talk β} {Q : List (Deed Entry) → Repo Entry → β → Prop} (h : Assured P r d)
    (hf : ∀ l r' a, P l r' a → Assured (fun l' => Q (l ++ l')) r' (f a)) : Assured Q r (d.andThen f) := by
  induction d generalizing P Q r with
  | done a => exact hf [] r a h
  | ask c k ih => exact fun b r' hstep => ih b (h b r' hstep) fun l s a hP => hf (_ :: l) s a hP

theorem ite {p : Prop} [Decidable p] {d e : Talk α} (hd : p → Assured Q r d) (he : ¬ p → Assured Q r e) :
    Assured Q r (if p then d else e) := by
  split
  · next hp => exact hd hp
  · next hp => exact he hp

end Assured

end WorkWaves.Merge
