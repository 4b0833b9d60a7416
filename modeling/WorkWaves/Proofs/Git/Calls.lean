import WorkWaves.Git.Command

/-!
# What calls of git keep

A property of machines is kept by a task, also by one that fails, if it is kept by its parts (`Task.Keeps`). Every call
of git is written down (`Machine.record_eq`), and then git does what it does (`Machine.launch_eq`).
-/

namespace WorkWaves

namespace Machine

variable {μ : Type}

theorem append_eq (m : Machine μ) (path line : String) :
    ∃ files, m.append path line = { m with files := files } ∧
      (files = m.files ∨ ∃ text text', m.files.read path = .ok text ∧ m.files.write path text' = .ok files) := by
  unfold append
  split
  · exact ⟨m.files, rfl, .inl rfl⟩
  · next text hread =>
    split
    · next files hwrite => exact ⟨files, rfl, .inr ⟨text, _, hread, hwrite⟩⟩
    · exact ⟨m.files, rfl, .inl rfl⟩

/-- What is written down changes the log file, if there is one, and what was told to the side. -/
theorem record_eq (r : LogRecord) (m : Machine μ) :
    ∃ files complaints, m.record r = { m with files := files, complaints := complaints } ∧
      (files = m.files ∨ ∃ path text text', m.logging.file = some path ∧ m.files.read path = .ok text ∧
        m.files.write path text' = .ok files) := by
  have hconsole : ∀ line, ∃ complaints,
      (if m.logging.console then { m with complaints := line :: m.complaints } else m) =
        { m with complaints := complaints } := by
    intro line
    split
    · exact ⟨_, rfl⟩
    · exact ⟨m.complaints, rfl⟩
  unfold record
  dsimp only
  split
  · obtain ⟨complaints, hm⟩ := hconsole (m.now.text ++ " " ++ (m.spans.foldl LogRecord.within r).line)
    rw [hm]
    split
    · next path hpath =>
      obtain ⟨files, heq, hfiles⟩ := append_eq { m with complaints := complaints } path
        (m.now.text ++ " " ++ (m.spans.foldl LogRecord.within r).line)
      refine ⟨files, complaints, heq, hfiles.imp_right ?_⟩
      rintro ⟨text, text', hread, hwrite⟩
      exact ⟨path, text, text', hpath, hread, hwrite⟩
    · exact ⟨m.files, complaints, rfl, .inl rfl⟩
  · exact ⟨m.files, m.complaints, rfl, .inl rfl⟩

/-- A program that is started works on the files from the place of its directory. -/
theorem launch_eq (i : Invocation) (m : Machine μ) : (m.launch i).2 = m ∨
    ∃ place, m.files.directory i.directory = .ok place ∧
      (m.launch i).2 =
        { m with
          files := { (m.programs.launch i { m.files with here := place } m.kept).2.1 with here := m.files.here }
          kept := (m.programs.launch i { m.files with here := place } m.kept).2.2 } := by
  unfold launch
  split
  · exact .inl rfl
  · split
    · exact .inl rfl
    · next place hplace => exact .inr ⟨place, hplace, rfl⟩

end Machine

namespace Task

variable {μ ε ε' α β : Type} {P : Machine μ → Prop} {t : Task μ ε α}

theorem run_bind_of_ok {f : α → Task μ ε β} {m m' : Machine μ} {a : α} (h : t.run m = (.ok a, m')) :
    (t >>= f).run m = (f a).run m' := by
  show (ExceptT.bindCont f (t.run m).1 : StateM (Machine μ) (Except ε β)) (t.run m).2 = _
  rw [h]
  rfl

theorem run_bind_of_error {f : α → Task μ ε β} {m m' : Machine μ} {e : ε} (h : t.run m = (.error e, m')) :
    (t >>= f).run m = (.error e, m') := by
  show (ExceptT.bindCont f (t.run m).1 : StateM (Machine μ) (Except ε β)) (t.run m).2 = _
  rw [h]
  rfl

theorem run_get_bind (f : Machine μ → Task μ ε β) (m : Machine μ) : (get >>= f).run m = (f m).run m := rfl

theorem run_bind_eq_ok {f : α → Task μ ε β} {m m'' : Machine μ} {b : β} (h : (t >>= f).run m = (.ok b, m'')) :
    ∃ a m', t.run m = (.ok a, m') ∧ (f a).run m' = (.ok b, m'') := by
  rcases hr : t.run m with ⟨e | a, m'⟩
  · rw [run_bind_of_error hr] at h
    cases h
  · rw [run_bind_of_ok hr] at h
    exact ⟨a, m', rfl, h⟩

/-- A property of machines is kept by a task, also by one that fails. -/
def Keeps (P : Machine μ → Prop) (t : Task μ ε α) : Prop := ∀ m, P m → P (t.run m).2

namespace Keeps

theorem pure (a : α) : Keeps P (Pure.pure a : Task μ ε α) := fun _ h => h

theorem bind {f : α → Task μ ε β} (ht : Keeps P t) (hf : ∀ a, Keeps P (f a)) : Keeps P (t >>= f) := by
  intro m hm
  have h := ht m hm
  rcases hr : t.run m with ⟨e | a, m'⟩ <;> rw [hr] at h
  · rwa [run_bind_of_error hr]
  · rw [run_bind_of_ok hr]
    exact hf a m' h

theorem throw (e : ε) : Keeps P (MonadExcept.throw e : Task μ ε α) := fun _ h => h

theorem modify {f : Machine μ → Machine μ} (hf : ∀ m, P m → P (f m)) :
    Keeps P (modify f : Task μ ε Unit) := hf

theorem tryCatch {f : ε → Task μ ε α} (ht : Keeps P t) (hf : ∀ e, Keeps P (f e)) :
    Keeps P (tryCatch t f) := by
  intro m hm
  have h := ht m hm
  show P ((match (t.run m).1 with
    | .ok a => fun m => (Except.ok a, m)
    | .error e => (f e).run : Machine μ → Except ε α × Machine μ) (t.run m).2).2
  cases (t.run m).1 with
  | ok a => exact h
  | error e => exact hf e _ h

theorem adapt (f : ε → ε') (ht : Keeps P t) : Keeps P (ExceptT.adapt f t : Task μ ε' α) := ht

end Keeps

end Task

namespace Git

variable {μ : Type} {P : Machine μ → Prop} {directory : String} {args : List String}

/-- A call of git in a directory. -/
def invocation (directory : String) (args : List String) : Invocation :=
  { program := "git", args := args, directory := directory, env := environment }

/-- A property is kept when something is written down. -/
def Quiet (P : Machine μ → Prop) : Prop := ∀ level area text fields m, P m → P (Machine.log level area text fields m)

/-- A property is kept by a call of git. -/
def KeptBy (P : Machine μ → Prop) (directory : String) (args : List String) : Prop :=
  ∀ m, P m → P (Machine.launch (invocation directory args) m).2

theorem run_keeps (hlog : Quiet P) (hcall : KeptBy P directory args) : Task.Keeps P (run directory args) := by
  unfold run
  refine .bind (.modify (hlog _ _ _ _)) fun _ => .bind hcall fun r => ?_
  cases r with
  | error fault => exact .throw _
  | ok p =>
    dsimp only
    split
    · exact .pure _
    · exact .bind (.modify (hlog _ _ _ _)) fun _ => .pure _

theorem check_keeps (hlog : Quiet P) (hcall : KeptBy P directory args) : Task.Keeps P (check directory args) := by
  refine .bind (run_keeps hlog hcall) fun p => ?_
  cases p.success with
  | true => exact .pure _
  | false => exact .throw _

theorem ask_keeps (hlog : Quiet P) (hcall : KeptBy P directory args) : Task.Keeps P (ask directory args) :=
  .bind (check_keeps hlog hcall) fun _ => .pure _

end Git

end WorkWaves
