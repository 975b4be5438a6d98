import Mathlib.Logic.Basic

/-! Procedures with a state and exceptions, as Python runs them: what was written before an
exception stays written. The rules run one procedure after another, and say which part of the
state a procedure leaves alone, whether it returns or raises. -/
namespace Python

variable {ε σ α β γ δ : Type} {first : EStateM ε σ α} {next : α → EStateM ε σ β} {state middle after : σ}

theorem bind_run {value : α} (done : first.run state = .ok value middle) :
    (first >>= next).run state = (next value).run middle := by
  rw [EStateM.run_bind,done]

theorem bind_raises {raised : ε} (failed : first.run state = .error raised middle) :
    (first >>= next).run state = .error raised middle := by
  rw [EStateM.run_bind,failed]

/-- A sequence that returned ran both of its parts. -/
theorem bind_returned {result : β} (done : (first >>= next).run state = .ok result after) :
    ∃ value middle, first.run state = .ok value middle ∧ (next value).run middle = .ok result after := by
  rw [EStateM.run_bind] at done
  cases ran : first.run state with
  | ok value middle =>
    rw [ran] at done
    exact ⟨value,middle,rfl,done⟩
  | error raised middle =>
    rw [ran] at done
    cases done

/-- A result that does not depend on the state. -/
def attempt : Except ε α → EStateM ε σ α
  | .ok value => pure value
  | .error raised => throw raised

theorem attempt_ok {result : Except ε α} {value : α} (done : result = .ok value) :
    (attempt result).run state = .ok value state := by
  rw [done]
  rfl

theorem attempt_error {result : Except ε α} {raised : ε} (failed : result = .error raised) :
    (attempt result).run state = .error raised state := by
  rw [failed]
  rfl

theorem attempt_bind_returned {found : Except ε α} {result : β}
    (done : (attempt found >>= next).run state = .ok result after) :
    ∃ value, found = .ok value ∧ (next value).run state = .ok result after := by
  cases found with
  | ok value => exact ⟨value,rfl,done⟩
  | error raised => cases done

/-- `for item in items: body(item)` -/
def forEach (body : γ → EStateM ε σ Unit) : List γ → EStateM ε σ Unit
  | [] => pure ()
  | item::rest => do
    body item
    forEach body rest

/-- The loop rule: what holds before the loop with nothing done holds after it with everything
done, if each round that returns carries it over its item. -/
theorem forEach_returned {body : γ → EStateM ε σ Unit} (holds : List γ → σ → Prop) {items : List γ}
    (round : ∀ past item state after, item ∈ items → holds past state → (body item).run state = .ok () after →
      holds (past ++ [item]) after)
    (start : holds [] state) (done : (forEach body items).run state = .ok () after) : holds items after := by
  have loop : ∀ rest past state, past ++ rest = items → holds past state →
      (forEach body rest).run state = .ok () after → holds items after := by
    intro rest
    induction rest with
    | nil =>
      intro past state same held ended
      cases ended
      rw [List.append_nil] at same
      rw [← same]
      exact held
    | cons item others ih =>
      intro past state same held ended
      obtain ⟨_,middle,first,ended⟩ := bind_returned ended
      have among : item ∈ items := by
        rw [← same]
        exact List.mem_append_right _ List.mem_cons_self
      exact ih (past ++ [item]) middle (by rw [List.append_assoc]; exact same) (round past item state middle among held first) ended
  exact loop items [] state rfl start done

/-- In a loop that returned every round returned. -/
theorem forEach_each {body : γ → EStateM ε σ Unit} {p : γ → Prop} {items : List γ}
    (round : ∀ item state after, (body item).run state = .ok () after → p item)
    (done : (forEach body items).run state = .ok () after) : ∀ item ∈ items, p item := by
  refine forEach_returned (fun past _ => ∀ item ∈ past, p item) ?_ (fun item member => absurd member List.not_mem_nil) done
  intro past item state after _ before ran other member
  rcases List.mem_append.mp member with earlier | last
  · exact before other earlier
  · rw [List.mem_singleton.mp last]
    exact round item state after ran

/-- A loop whose rounds all return folds what they do to the state. -/
theorem forEach_run {body : γ → EStateM ε σ Unit} {step : γ → σ → σ} {items : List γ}
    (rounds : ∀ item ∈ items, ∀ state, (body item).run state = .ok () (step item state)) :
    (forEach body items).run state = .ok () (items.foldl (fun state item => step item state) state) := by
  induction items generalizing state with
  | nil => rfl
  | cons item rest ih =>
    unfold forEach
    rw [bind_run (rounds item List.mem_cons_self state)]
    exact ih fun other among => rounds other (List.mem_cons_of_mem _ among)

/-- The state that a procedure ends in. -/
def final : EStateM.Result ε σ α → σ
  | .ok _ after => after
  | .error _ after => after

/-- A procedure leaves what the view shows of the state as it was. -/
def Keeps (view : σ → γ) (procedure : EStateM ε σ α) : Prop :=
  ∀ state, view (final (procedure.run state)) = view state

namespace Keeps
variable {view : σ → γ}

theorem pure (value : α) : Keeps view (Pure.pure value : EStateM ε σ α) := fun _ => rfl

theorem throw (raised : ε) : Keeps view (MonadExcept.throw raised : EStateM ε σ α) := fun _ => rfl

theorem attempt (result : Except ε α) : Keeps view (Python.attempt result : EStateM ε σ α) := by
  cases result with
  | ok value => exact pure value
  | error raised => exact throw raised

theorem get : Keeps view (MonadState.get : EStateM ε σ σ) := fun _ => rfl

theorem modifyGet {change : σ → α × σ} (same : ∀ state, view (change state).2 = view state) :
    Keeps view (MonadStateOf.modifyGet change : EStateM ε σ α) := same

theorem bind (keeps : Keeps view first) (rest : ∀ value, Keeps view (next value)) : Keeps view (first >>= next) := by
  intro state
  rw [EStateM.run_bind]
  have begins := keeps state
  cases ran : first.run state with
  | ok value middle =>
    rw [ran] at begins
    exact (rest value middle).trans begins
  | error raised middle =>
    rw [ran] at begins
    exact begins

theorem forEach {body : δ → EStateM ε σ Unit} (rounds : ∀ item, Keeps view (body item)) (items : List δ) :
    Keeps view (Python.forEach body items) := by
  induction items with
  | nil => exact pure ()
  | cons item rest ih => exact bind (rounds item) fun _ => ih

theorem ite {condition : Prop} [Decidable condition] {yes no : EStateM ε σ α} (keepsYes : Keeps view yes)
    (keepsNo : Keeps view no) : Keeps view (if condition then yes else no) := by
  split
  · exact keepsYes
  · exact keepsNo

end Keeps

end Python
