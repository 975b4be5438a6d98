import FinmarsWorkflow.Interleave.Threads

/-! Programs on a state that only grows.
What a program has read stays true when others act between its steps, as long as all of
them let the state grow and keep an invariant. A program secures its operations from a
state on if each is allowed in whatever that state has grown to by then. -/
namespace Interleave
variable {σ ω β ε α γ κ μ : Type}

/-- The rules that the threads of a system share. -/
structure Regime (σ ω β : Type) where
  effect : ω → σ → σ
  grows : σ → σ → Prop
  valid : σ → Prop
  /-- the answers that are expected of the outside -/
  fair : β → Prop
  same : ∀ s, grows s s
  further : ∀ s t u, grows s t → grows t u → grows s u

namespace Program
variable {R : Regime σ ω β}

/-- From a state on, every operation is allowed where it is performed, and lets the state grow. -/
def Secures (R : Regime σ ω β) (may : σ → ω → Prop) : Program σ ω β ε α → σ → (σ → Except ε α → Prop) → Prop
  | .pure value,s,post => ∀ later, R.grows s later → R.valid later → post later (.ok value)
  | .raise error,s,post => ∀ later, R.grows s later → R.valid later → post later (.error error)
  | .step operation next,s,post => ∀ later, R.grows s later → R.valid later →
    may later operation ∧ R.grows later (R.effect operation later) ∧ R.valid (R.effect operation later) ∧
      ∀ b, R.fair b → (next later b).Secures R may (R.effect operation later) post

namespace Secures
variable {may : σ → ω → Prop} {program : Program σ ω β ε α} {post middle : σ → Except ε α → Prop} {s later : σ}

/-- Growth leaves a program as it is. -/
theorem grown (secures : program.Secures R may s post) (grows : R.grows s later) : program.Secures R may later post := by
  cases program with
  | pure | raise | step => exact fun last more => secures last (R.further _ _ _ grows more)

theorem bind {next : α → Program σ ω β ε γ} {last : σ → Except ε γ → Prop} (first : program.Secures R may s middle)
    (valid : R.valid s) (value : ∀ t a, R.valid t → middle t (.ok a) → (next a).Secures R may t last)
    (error : ∀ t e, R.valid t → middle t (.error e) → last t (.error e)) : (program.bind next).Secures R may s last := by
  induction program generalizing s with
  | pure a => exact value s a valid (first s (R.same s) valid)
  | raise e => exact fun t grows holds => error t e holds (first t grows holds)
  | step operation rest ih =>
    intro t grows holds
    obtain ⟨allowed,more,kept,continues⟩ := first t grows holds
    exact ⟨allowed,more,kept,fun b fair => ih t b (continues b fair) kept⟩

/-- What goes on with the outcome, be it an exception. -/
theorem handle {next : Except ε α → Program σ ω β ε γ} {last : σ → Except ε γ → Prop} (first : program.Secures R may s middle)
    (valid : R.valid s)
    (rest : ∀ t result, R.grows s t → R.valid t → middle t result → (next result).Secures R may t last) :
    (program.outcome.bind next).Secures R may s last := by
  induction program generalizing s with
  | pure a => exact rest s _ (R.same s) valid (first s (R.same s) valid)
  | raise e => exact rest s _ (R.same s) valid (first s (R.same s) valid)
  | step operation next ih =>
    intro t grows holds
    obtain ⟨allowed,more,kept,continues⟩ := first t grows holds
    exact ⟨allowed,more,kept,fun b fair => ih t b (continues b fair) kept
      (fun u result further => rest u result (R.further _ _ _ grows (R.further _ _ _ more further)))⟩

theorem mono {weaker : σ → Except ε α → Prop} (first : program.Secures R may s post)
    (implies : ∀ t result, R.valid t → post t result → weaker t result) : program.Secures R may s weaker := by
  induction program generalizing s with
  | pure a => exact fun t grows holds => implies t _ holds (first t grows holds)
  | raise e => exact fun t grows holds => implies t _ holds (first t grows holds)
  | step operation rest ih =>
    intro t grows holds
    obtain ⟨allowed,more,kept,continues⟩ := first t grows holds
    exact ⟨allowed,more,kept,fun b fair => ih t b (continues b fair)⟩

end Secures
end Program

section runs
variable {R : Regime σ ω β} {react : μ → σ → List κ → Option (σ × Turn κ)} {code : κ → Program σ ω β ε Unit}
  {ok : Condition σ κ ω β μ} {may : κ → σ → ω → Prop} {first last : System κ (Program.language σ ω β ε)}
  {events : List (κ × ω)}

/-- Every operation of a run was allowed in a state on the way, which has grown since then. -/
theorem Run.secured
    (run : Run ⟨R.effect,react⟩ (L := Program.language σ ω β ε) code ok first events last)
    (idle : first.threads = []) (valid : R.valid first.shared)
    (secures : ∀ (view : View σ κ ω) environment after origin, react environment view.shared (view.threads.map Prod.fst) =
      some (after,.spawn origin) → R.valid after → (code origin).Secures R (may origin) after (fun _ _ => True))
    (fair : ∀ view index answer, ok view (.advance index answer) → R.fair answer)
    (moves : ∀ view environment after turn, R.valid view.shared → ok view (.move environment) →
      react environment view.shared (view.threads.map Prod.fst) = some (after,turn) →
        R.grows view.shared after ∧ R.valid after) :
    R.grows first.shared last.shared ∧ R.valid last.shared ∧
    ∀ event ∈ events, ∃ s, R.grows first.shared s ∧ R.grows s last.shared ∧ R.valid s ∧ may event.1 s event.2 := by
  have all : (R.grows first.shared last.shared ∧ R.valid last.shared ∧
      ∀ event ∈ events, ∃ s, R.grows first.shared s ∧ R.grows s last.shared ∧ R.valid s ∧ may event.1 s event.2) ∧
      ∀ thread ∈ last.threads, Program.Secures R (may thread.1) thread.2 last.shared (fun _ _ => True) := by
    refine run.recorded (fun events S => (R.grows first.shared S.shared ∧ R.valid S.shared ∧
      ∀ event ∈ events, ∃ s, R.grows first.shared s ∧ R.grows s S.shared ∧ R.valid s ∧ may event.1 s event.2) ∧
      ∀ thread ∈ S.threads, Program.Secures R (may thread.1) thread.2 S.shared (fun _ _ => True)) ?_ ?_
    · intro events before label after holds allowed step
      obtain ⟨⟨begun,holds,past⟩,threads⟩ := holds
      -- what a step does to the state, and what it allows
      have advances {index : Nat} {answer : β} {origin : κ} {thread : Program σ ω β ε Unit} {operation : ω}
          (same : label = .advance index answer) (found : before.threads[index]? = some (origin,thread))
          (busy : (Program.language σ ω β ε).operation thread = some operation) :
          may origin before.shared operation ∧ R.grows before.shared (R.effect operation before.shared) ∧
            R.valid (R.effect operation before.shared) ∧ Program.Secures R (may origin)
              ((Program.language σ ω β ε).next thread before.shared answer) (R.effect operation before.shared) (fun _ _ => True) := by
        subst same
        have secures := threads _ (List.mem_of_getElem? found)
        cases thread with
        | pure => cases busy
        | raise => cases busy
        | step performed next =>
          cases busy
          obtain ⟨permitted,grows,kept,continues⟩ := secures before.shared (R.same _) holds
          exact ⟨permitted,grows,kept,continues answer (fair _ _ _ allowed)⟩
      have changes : R.grows before.shared after.shared ∧ R.valid after.shared := by
        rcases step.shared_cases with same | ⟨index,answer,origin,thread,operation,taken,found,busy,same⟩ |
          ⟨environment,turn,rfl,reacts⟩
        · rw [same]
          exact ⟨R.same _,holds⟩
        · obtain ⟨_,grows,kept,_⟩ := advances taken found busy
          rw [same]
          exact ⟨grows,kept⟩
        · refine moves before.view environment after.shared turn holds allowed ?_
          rw [System.view,List.map_map]
          exact reacts
      refine ⟨⟨R.further _ _ _ begun changes.1,changes.2,fun event member => ?_⟩,fun thread member => ?_⟩
      · rcases List.mem_append.mp member with earlier | now
        · obtain ⟨s,starts,grows,kept,permitted⟩ := past event earlier
          exact ⟨s,starts,R.further _ _ _ grows changes.1,kept,permitted⟩
        · obtain ⟨index,answer,origin,thread,operation,found,busy,rfl,taken⟩ := event_elim now
          exact ⟨before.shared,begun,changes.1,holds,(advances taken found busy).1⟩
      · obtain ⟨origin,thread⟩ := thread
        rcases step.thread_cases member with inside | ⟨index,answer,old,operation,taken,found,busy,same,rfl⟩ |
          ⟨environment,_,reacts,rfl⟩
        · exact (threads _ inside).grown changes.1
        · rw [same]
          exact (advances taken found busy).2.2.2
        · refine secures before.view environment after.shared origin ?_ changes.2
          rw [System.view,List.map_map]
          exact reacts
    · refine ⟨⟨R.same _,valid,fun _ member => absurd member List.not_mem_nil⟩,?_⟩
      rw [idle]
      exact fun _ member => absurd member List.not_mem_nil
  exact all.1

end runs
end Interleave
