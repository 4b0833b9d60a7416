/-!
# Dialogues

A computation that asks for answers and goes on with each. What answers is not part of it: a dialogue can
be held with a state that answers at once (`Dialogue.run`), be carried on inside a larger dialogue
(`Dialogue.within`), or be stopped at a question and taken up again later.
-/

namespace WorkWaves

/-- A computation of an `α` that asks questions of type `Call`. -/
inductive Dialogue (Call : Type) (Answer : Call → Type) (α : Type) where
  | done (a : α)
  | ask (c : Call) (k : Answer c → Dialogue Call Answer α)

namespace Dialogue

variable {Call Call' : Type} {Answer : Call → Type} {Answer' : Call' → Type} {α β σ : Type}

/-- Goes on with what a dialogue ends in. -/
def andThen (d : Dialogue Call Answer α) (f : α → Dialogue Call Answer β) : Dialogue Call Answer β :=
  match d with
  | done a => f a
  | ask c k => .ask c fun r => andThen (k r) f

instance : Monad (Dialogue Call Answer) where
  pure := .done
  bind := andThen

/-- Holds a dialogue with a state that answers at once. -/
def run (answer : (c : Call) → σ → Answer c × σ) : Dialogue Call Answer α → σ → α × σ
  | done a, s => (a, s)
  | ask c k, s =>
    let r := answer c s
    (k r.1).run answer r.2

/-- Carries a dialogue on inside another, where `f` asks its questions. -/
def within (f : (c : Call) → Dialogue Call' Answer' (Answer c)) :
    Dialogue Call Answer α → Dialogue Call' Answer' α
  | done a => .done a
  | ask c k => (f c).andThen fun r => (k r).within f

theorem run_andThen (answer : (c : Call) → σ → Answer c × σ) (d : Dialogue Call Answer α)
    (f : α → Dialogue Call Answer β) (s : σ) :
    (d.andThen f).run answer s = (f (d.run answer s).1).run answer (d.run answer s).2 := by
  induction d generalizing s with
  | done a => rfl
  | ask c k ih => simp [andThen, run, ih]

end Dialogue

end WorkWaves
