import Mathlib.Data.List.Basic

/-! Programs as trees of atomic operations on a shared state.
A step names its operation and continues with the state it found and with the
answer the outside world gave, so that other programs can act between any two
steps. Exceptions are results; nothing here knows which operations exist. -/
namespace Interleave

inductive Program (σ ω β ε α : Type) where
  | pure (value : α)
  | raise (error : ε)
  | step (operation : ω) (next : σ → β → Program σ ω β ε α)

namespace Program
variable {σ ω β ε α γ : Type}

def bind : Program σ ω β ε α → (α → Program σ ω β ε γ) → Program σ ω β ε γ
  | .pure value,next => next value
  | .raise error,_ => .raise error
  | .step operation rest,next => .step operation (fun s b => (rest s b).bind next)

instance : Monad (Program σ ω β ε) where
  pure := .pure
  bind := .bind

/-- The whole result of a program, with the exception it ends in as a value. -/
def outcome : Program σ ω β ε α → Program σ ω β ε (Except ε α)
  | .pure value => .pure (.ok value)
  | .raise error => .pure (.error error)
  | .step operation rest => .step operation (fun s b => (rest s b).outcome)

/-- `try: ... except Exception: pass`, with the result dropped. -/
def attempt (program : Program σ ω β ε α) : Program σ ω β ε Unit :=
  program.outcome.bind (fun _ => .pure ())

def lift : Except ε α → Program σ ω β ε α
  | .ok value => .pure value
  | .error error => .raise error

@[simp] theorem bind_pure (value : α) (next : α → Program σ ω β ε γ) :
    (Program.pure value).bind next = next value := rfl

@[simp] theorem bind_raise (error : ε) (next : α → Program σ ω β ε γ) :
    (Program.raise error : Program σ ω β ε α).bind next = .raise error := rfl

@[simp] theorem bind_step (operation : ω) (rest : σ → β → Program σ ω β ε α)
    (next : α → Program σ ω β ε γ) :
    (Program.step operation rest).bind next = .step operation (fun s b => (rest s b).bind next) := rfl

@[simp] theorem monad_bind (program : Program σ ω β ε α) (next : α → Program σ ω β ε γ) :
    program >>= next = program.bind next := rfl

@[simp] theorem monad_pure (value : α) : (Pure.pure value : Program σ ω β ε α) = .pure value := rfl

@[simp] theorem outcome_pure (value : α) :
    (Program.pure value : Program σ ω β ε α).outcome = .pure (.ok value) := rfl

@[simp] theorem outcome_raise (error : ε) :
    (Program.raise error : Program σ ω β ε α).outcome = .pure (.error error) := rfl

@[simp] theorem outcome_step (operation : ω) (rest : σ → β → Program σ ω β ε α) :
    (Program.step operation rest).outcome = .step operation (fun s b => (rest s b).outcome) := rfl

@[simp] theorem lift_ok (value : α) : (lift (.ok value) : Program σ ω β ε α) = .pure value := rfl

@[simp] theorem lift_error (error : ε) : (lift (.error error) : Program σ ω β ε α) = .raise error := rfl

/-- Execution without interference, with one answer for all of its questions. -/
def run (effect : ω → σ → σ) (answer : β) : Program σ ω β ε α → σ → Except ε α × σ
  | .pure value,s => (.ok value,s)
  | .raise error,s => (.error error,s)
  | .step operation rest,s => (rest s answer).run effect answer (effect operation s)

section run
variable (effect : ω → σ → σ) (answer : β)

@[simp] theorem run_pure (value : α) (s : σ) :
    (Program.pure value : Program σ ω β ε α).run effect answer s = (.ok value,s) := rfl

@[simp] theorem run_raise (error : ε) (s : σ) :
    (Program.raise error : Program σ ω β ε α).run effect answer s = (.error error,s) := rfl

@[simp] theorem run_step (operation : ω) (rest : σ → β → Program σ ω β ε α) (s : σ) :
    (Program.step operation rest).run effect answer s = (rest s answer).run effect answer (effect operation s) := rfl

theorem run_bind (program : Program σ ω β ε α) (next : α → Program σ ω β ε γ) (s : σ) :
    (program.bind next).run effect answer s = match program.run effect answer s with
      | (.ok value,after) => (next value).run effect answer after
      | (.error error,after) => (.error error,after) := by
  induction program generalizing s with
  | pure => rfl
  | raise => rfl
  | step operation rest ih => exact ih s answer (effect operation s)

@[simp] theorem run_attempt (program : Program σ ω β ε α) (s : σ) :
    (program.attempt.run effect answer s).2 = (program.run effect answer s).2 := by
  induction program generalizing s with
  | pure => rfl
  | raise => rfl
  | step operation rest ih => exact ih s answer (effect operation s)

/-- A preorder that every operation respects relates the ends of a run. -/
theorem run_relates (R : σ → σ → Prop) (refl : ∀ s, R s s) (trans : ∀ s t u, R s t → R t u → R s u)
    (step : ∀ operation s, R s (effect operation s)) (program : Program σ ω β ε α) (s : σ) :
    R s (program.run effect answer s).2 := by
  induction program generalizing s with
  | pure => exact refl s
  | raise => exact refl s
  | step operation rest ih => exact trans _ _ _ (step operation s) (ih s answer (effect operation s))

/-- The execution performs operations of one kind only. -/
def RunsOn (may : ω → Prop) : Program σ ω β ε α → σ → Prop
  | .pure _,_ | .raise _,_ => True
  | .step operation rest,s => may operation ∧ (rest s answer).RunsOn may (effect operation s)

@[simp] theorem runsOn_pure (may : ω → Prop) (value : α) (s : σ) :
    (Program.pure value : Program σ ω β ε α).RunsOn effect answer may s := trivial

@[simp] theorem runsOn_raise (may : ω → Prop) (error : ε) (s : σ) :
    (Program.raise error : Program σ ω β ε α).RunsOn effect answer may s := trivial

@[simp] theorem runsOn_step (may : ω → Prop) (operation : ω) (rest : σ → β → Program σ ω β ε α) (s : σ) :
    (Program.step operation rest).RunsOn effect answer may s ↔
      may operation ∧ (rest s answer).RunsOn effect answer may (effect operation s) := Iff.rfl

theorem runsOn_bind (may : ω → Prop) (program : Program σ ω β ε α) (next : α → Program σ ω β ε γ) (s : σ) :
    (program.bind next).RunsOn effect answer may s ↔ program.RunsOn effect answer may s ∧
      ∀ value, (program.run effect answer s).1 = .ok value →
        (next value).RunsOn effect answer may (program.run effect answer s).2 := by
  induction program generalizing s with
  | pure value => simp
  | raise error => simp
  | step operation rest ih => simp only [bind_step,runsOn_step,run_step,ih,and_assoc]

@[simp] theorem runsOn_attempt (may : ω → Prop) (program : Program σ ω β ε α) (s : σ) :
    program.attempt.RunsOn effect answer may s ↔ program.RunsOn effect answer may s := by
  induction program generalizing s with
  | pure => exact Iff.rfl
  | raise => exact Iff.rfl
  | step operation rest ih => exact and_congr_right fun _ => ih s answer (effect operation s)

end run

end Program
end Interleave
