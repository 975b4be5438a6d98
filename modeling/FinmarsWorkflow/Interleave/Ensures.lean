import FinmarsWorkflow.Interleave.Threads

/-! What a program may do, whatever happens between its steps.
A program ensures that it performs operations of one kind only, as long as the states
it finds meet the rely, and that its result meets a postcondition. What every thread
of a system may do is what its runs have performed. A program on a part of the state
acts on the whole one. -/
namespace Interleave
namespace Program
variable {σ τ ω υ β ε α γ : Type}

/-- A program on a part of the state, with its operations as operations on the whole. -/
def within (view : τ → σ) (wrap : ω → υ) : Program σ ω β ε α → Program τ υ β ε α
  | .pure value => .pure value
  | .raise error => .raise error
  | .step operation next => .step (wrap operation) (fun s b => (next (view s) b).within view wrap)

/-- On the part the program has the effect that it has there. -/
theorem run_within {view : τ → σ} {wrap : ω → υ} {effect : ω → σ → σ} {whole : υ → τ → τ} (answer : β)
    (fits : ∀ operation t, view (whole (wrap operation) t) = effect operation (view t))
    (program : Program σ ω β ε α) (t : τ) :
    view ((program.within view wrap).run whole answer t).2 = (program.run effect answer (view t)).2 := by
  induction program generalizing t with
  | pure => rfl
  | raise => rfl
  | step operation next ih =>
    simp only [within,run_step,← fits]
    exact ih _ _ _

def Ensures (rely : σ → Prop) (may : ω → Prop) : Program σ ω β ε α → (Except ε α → Prop) → Prop
  | .pure value,post => post (.ok value)
  | .raise error,post => post (.error error)
  | .step operation next,post => may operation ∧ ∀ s b, rely s → (next s b).Ensures rely may post

namespace Ensures
variable {rely : σ → Prop} {may : ω → Prop} {program : Program σ ω β ε α} {post middle : Except ε α → Prop}

theorem mono {stronger : σ → Prop} {more : ω → Prop} {weaker : Except ε α → Prop} (ensures : program.Ensures rely may post)
    (relies : ∀ s, stronger s → rely s) (allows : ∀ operation, may operation → more operation)
    (implies : ∀ result, post result → weaker result) : program.Ensures stronger more weaker := by
  induction program with
  | pure value => exact implies _ ensures
  | raise error => exact implies _ ensures
  | step operation next ih =>
    obtain ⟨allowed,rest⟩ := ensures
    exact ⟨allows _ allowed,fun s b holds => ih s b (rest s b (relies s holds))⟩

theorem widen {more : ω → Prop} (ensures : program.Ensures rely may post) (allows : ∀ operation, may operation → more operation) :
    program.Ensures rely more post := ensures.mono (fun _ holds => holds) allows (fun _ holds => holds)

theorem anything (program : Program σ ω β ε α) : program.Ensures rely (fun _ => True) (fun _ => True) := by
  induction program with
  | pure => trivial
  | raise => trivial
  | step operation next ih => exact ⟨trivial,fun s b _ => ih s b⟩

theorem bind {next : α → Program σ ω β ε γ} {last : Except ε γ → Prop} (first : program.Ensures rely may middle)
    (value : ∀ a, middle (.ok a) → (next a).Ensures rely may last) (error : ∀ e, middle (.error e) → last (.error e)) :
    (program.bind next).Ensures rely may last := by
  induction program with
  | pure a => exact value a first
  | raise e => exact error e first
  | step operation rest ih => exact ⟨first.1,fun s b holds => ih s b (first.2 s b holds)⟩

theorem lift {result : Except ε α} (holds : post result) :
    (Program.lift result : Program σ ω β ε α).Ensures rely may post := by
  cases result with
  | ok value => exact holds
  | error error => exact holds

/-- Where nothing is promised about the result, only the operations of both parts count. -/
theorem andThen {next : α → Program σ ω β ε γ} (first : program.Ensures rely may (fun _ => True))
    (value : ∀ a, (next a).Ensures rely may (fun _ => True)) : (program.bind next).Ensures rely may (fun _ => True) :=
  first.bind (fun a _ => value a) (fun _ _ => trivial)

/-- Nothing is promised about the result of the first part. -/
theorem before {next : α → Program σ ω β ε γ} {last : Except ε γ → Prop} (first : program.Ensures rely may (fun _ => True))
    (value : ∀ a, (next a).Ensures rely may last) (error : ∀ e, last (.error e)) : (program.bind next).Ensures rely may last :=
  first.bind (fun a _ => value a) (fun e _ => error e)

theorem outcome {last : Except ε (Except ε α) → Prop} (first : program.Ensures rely may middle)
    (value : ∀ result, middle result → last (.ok result)) : program.outcome.Ensures rely may last := by
  induction program with
  | pure a => exact value _ first
  | raise e => exact value _ first
  | step operation rest ih => exact ⟨first.1,fun s b holds => ih s b (first.2 s b holds)⟩

theorem caught (first : program.Ensures rely may post) : program.outcome.Ensures rely may (fun _ => True) :=
  first.outcome (fun _ _ => trivial)

theorem attempt (first : program.Ensures rely may (fun _ => True)) : program.attempt.Ensures rely may (fun _ => True) := by
  induction program with
  | pure a => trivial
  | raise e => trivial
  | step operation rest ih => exact ⟨first.1,fun s b holds => ih s b (first.2 s b holds)⟩

theorem within {view : τ → σ} {wrap : ω → υ} {large : τ → Prop} {more : υ → Prop} (ensures : program.Ensures rely may post)
    (relies : ∀ s, large s → rely (view s)) (allows : ∀ operation, may operation → more (wrap operation)) :
    (program.within view wrap).Ensures large more post := by
  induction program with
  | pure value => exact ensures
  | raise error => exact ensures
  | step operation next ih =>
    obtain ⟨allowed,rest⟩ := ensures
    exact ⟨allows _ allowed,fun s b holds => ih (view s) b (rest (view s) b (relies s holds))⟩

/-- Without interference its operations relate the ends of a run, whose result is as promised. -/
theorem run {effect : ω → σ → σ} {answer : β} {R : σ → σ → Prop} (refl : ∀ s, R s s)
    (trans : ∀ s t u, R s t → R t u → R s u) (step : ∀ operation s, may operation → R s (effect operation s))
    (ensures : program.Ensures (fun _ => True) may post) (s : σ) :
    R s (program.run effect answer s).2 ∧ post (program.run effect answer s).1 := by
  induction program generalizing s with
  | pure value => exact ⟨refl s,ensures⟩
  | raise error => exact ⟨refl s,ensures⟩
  | step operation next ih =>
    obtain ⟨related,result⟩ := ih s answer (ensures.2 s answer trivial) (effect operation s)
    exact ⟨trans _ _ _ (step operation s ensures.1) related,result⟩

end Ensures
end Program

variable {σ ω β ε κ μ : Type} {M : Machine σ ω κ μ} {code : κ → (Program.language σ ω β ε).Thread}
  {ok : Condition σ κ ω β μ}

/-- A thread that ensures something has a step left that may be taken, and ensures the rest. -/
theorem Program.Ensures.advance {rely : σ → Prop} {may : ω → Prop} {post : Except ε Unit → Prop}
    {thread : (Program.language σ ω β ε).Thread} (ensures : Program.Ensures rely may thread post) {operation : ω}
    (busy : (Program.language σ ω β ε).operation thread = some operation) :
    may operation ∧ ∀ s b, rely s → Program.Ensures rely may ((Program.language σ ω β ε).next thread s b) post := by
  cases thread with
  | pure => cases busy
  | raise => cases busy
  | step operation next =>
    cases busy
    exact ensures

/-- What the program of every origin may do is what a run has performed. -/
theorem Run.performs {may : κ → ω → Prop}
    (ensures : ∀ origin, (code origin).Ensures (fun _ => True) (may origin) (fun _ => True))
    {first last : System κ (Program.language σ ω β ε)} {events : List (κ × ω)} (run : Run M code ok first events last)
    (idle : first.threads = []) : ∀ event ∈ events, may event.1 event.2 := by
  have both : (∀ event ∈ events, may event.1 event.2) ∧
      ∀ thread ∈ last.threads, Program.Ensures (fun _ => True) (may thread.1) thread.2 (fun _ => True) := by
    apply run.recorded (fun events S => (∀ event ∈ events, may event.1 event.2) ∧
      ∀ thread ∈ S.threads, Program.Ensures (fun _ => True) (may thread.1) thread.2 (fun _ => True))
    · intro events before label after holds _ step
      obtain ⟨past,threads⟩ := holds
      refine ⟨?_,fun thread member => ?_⟩
      · intro event member
        rcases List.mem_append.mp member with earlier | now
        · exact past event earlier
        · obtain ⟨index,answer,origin,thread,operation,found,busy,rfl,_⟩ := event_elim now
          exact ((threads _ (List.mem_of_getElem? found)).advance busy).1
      · rcases step.thread_cases member with inside | ⟨index,answer,old,operation,_,found,busy,_,same⟩ | ⟨_,_,_,same⟩
        · exact threads _ inside
        · rw [same]
          exact ((threads _ (List.mem_of_getElem? found)).advance busy).2 _ _ trivial
        · rw [same]
          exact ensures _
    · rw [idle]
      exact ⟨fun _ member => absurd member List.not_mem_nil,fun _ member => absurd member List.not_mem_nil⟩
  exact both.1

/-- A rely that every allowed operation and every move keeps holds along a run, and every
thread ensures what its program does under it. -/
theorem Run.relies {rely : σ → Prop} {may : κ → ω → Prop}
    (ensures : ∀ origin, (code origin).Ensures rely (may origin) (fun _ => True))
    (advance : ∀ (view : View σ κ ω) (index : Nat) (answer : β) (origin : κ) (operation : ω), rely view.shared →
      ok view (.advance index answer) → view.threads[index]? = some (origin,some operation) → may origin operation →
        rely (M.effect operation view.shared))
    (move : ∀ (view : View σ κ ω) (environment : μ) (after : σ) (turn : Turn κ), rely view.shared →
      ok view (.move environment) → M.react environment view.shared (view.threads.map Prod.fst) = some (after,turn) →
        rely after)
    {first last : System κ (Program.language σ ω β ε)} {events : List (κ × ω)} (run : Run M code ok first events last)
    (idle : first.threads = []) (holds : rely first.shared) : rely last.shared := by
  have both : rely last.shared ∧ ∀ thread ∈ last.threads, Program.Ensures rely (may thread.1) thread.2 (fun _ => True) := by
    apply run.invariant (fun S => rely S.shared ∧
      ∀ thread ∈ S.threads, Program.Ensures rely (may thread.1) thread.2 (fun _ => True))
    · intro before label after good allowed step
      obtain ⟨relies,threads⟩ := good
      refine ⟨?_,fun thread member => ?_⟩
      · rcases step.shared_cases with same | ⟨index,answer,origin,thread,operation,rfl,found,busy,same⟩ |
          ⟨environment,turn,rfl,reacts⟩
        · rw [same]
          exact relies
        · have seen := System.view_found found
          rw [busy] at seen
          rw [same]
          exact advance before.view index answer origin operation relies allowed seen
            ((threads _ (List.mem_of_getElem? found)).advance busy).1
        · refine move before.view environment after.shared turn relies allowed ?_
          rw [System.view,List.map_map]
          exact reacts
      · rcases step.thread_cases member with inside | ⟨index,answer,old,operation,_,found,busy,_,same⟩ | ⟨_,_,_,same⟩
        · exact threads _ inside
        · rw [same]
          exact ((threads _ (List.mem_of_getElem? found)).advance busy).2 _ _ relies
        · rw [same]
          exact ensures _
    · rw [idle]
      exact ⟨holds,fun _ member => absurd member List.not_mem_nil⟩
  exact both.1

end Interleave
