import Mathlib.Algebra.BigOperators.Group.List.Basic
import FinmarsWorkflow.Interleave.Program

/-! Threads of a language over one shared state, under every interleaving.
A thread performs its next operation as one atomic step; an environment move may
change the state, start a thread or drop one. A run records the operations it
performed and is constrained step by step by a condition on what is visible. -/
namespace Interleave

structure Language (σ ω β : Type) where
  Thread : Type
  operation : Thread → Option ω
  next : Thread → σ → β → Thread

/-- Programs run as threads of their own operations; a finished one has none left. -/
def Program.language (σ ω β ε : Type) : Language σ ω β where
  Thread := Program σ ω β ε Unit
  operation
    | .step operation _ => some operation
    | _ => none
  next program s b := match program with
    | .step _ rest => rest s b
    | other => other

structure System {σ ω β : Type} (κ : Type) (L : Language σ ω β) where
  shared : σ
  threads : List (κ × L.Thread)

/-- What can be seen of a system: the state, and for each thread where it came
from and the operation it performs next. -/
structure View (σ κ ω : Type) where
  shared : σ
  threads : List (κ × Option ω)

inductive Turn (κ : Type) where
  | keep
  | spawn (origin : κ)
  | drop (index : Nat)

inductive Label (β μ : Type) where
  | advance (index : Nat) (answer : β)
  | close (index : Nat)
  | move (environment : μ)

structure Machine (σ ω κ μ : Type) where
  effect : ω → σ → σ
  react : μ → σ → List κ → Option (σ × Turn κ)

variable {σ ω β κ μ : Type}

namespace System
variable {L : Language σ ω β}

def view (S : System κ L) : View σ κ ω :=
  ⟨S.shared,S.threads.map (fun thread => (thread.1,L.operation thread.2))⟩

/-- The operation that a label performs, with the origin of its thread. -/
def event (S : System κ L) : Label β μ → List (κ × ω)
  | .advance index _ => match S.threads[index]? with
    | some (origin,thread) => ((L.operation thread).map (fun operation => (origin,operation))).toList
    | none => []
  | _ => []

def apply (M : Machine σ ω κ μ) (code : κ → L.Thread) (S : System κ L) : Label β μ → Option (System κ L)
  | .advance index answer => match S.threads[index]? with
    | some (origin,thread) => (L.operation thread).map fun operation =>
        ⟨M.effect operation S.shared,S.threads.set index (origin,L.next thread S.shared answer)⟩
    | none => none
  | .close index => match S.threads[index]? with
    | some (_,thread) => if (L.operation thread).isNone then some ⟨S.shared,S.threads.eraseIdx index⟩ else none
    | none => none
  | .move environment => match M.react environment S.shared (S.threads.map Prod.fst) with
    | some (after,.keep) => some ⟨after,S.threads⟩
    | some (after,.spawn origin) => some ⟨after,S.threads ++ [(origin,code origin)]⟩
    | some (after,.drop index) => some ⟨after,S.threads.eraseIdx index⟩
    | none => none

end System

/-- One labelled step of a system. -/
inductive Step (M : Machine σ ω κ μ) {L : Language σ ω β} (code : κ → L.Thread) :
    System κ L → Label β μ → System κ L → Prop
  | advance (S : System κ L) (index : Nat) (answer : β) (origin : κ) (thread : L.Thread) (operation : ω)
      (found : S.threads[index]? = some (origin,thread)) (busy : L.operation thread = some operation) :
      Step M code S (.advance index answer)
        ⟨M.effect operation S.shared,S.threads.set index (origin,L.next thread S.shared answer)⟩
  | close (S : System κ L) (index : Nat) (origin : κ) (thread : L.Thread)
      (found : S.threads[index]? = some (origin,thread)) (idle : L.operation thread = none) :
      Step M code S (.close index) ⟨S.shared,S.threads.eraseIdx index⟩
  | keep (S : System κ L) (environment : μ) (after : σ)
      (reacts : M.react environment S.shared (S.threads.map Prod.fst) = some (after,.keep)) :
      Step M code S (.move environment) ⟨after,S.threads⟩
  | spawn (S : System κ L) (environment : μ) (after : σ) (origin : κ)
      (reacts : M.react environment S.shared (S.threads.map Prod.fst) = some (after,.spawn origin)) :
      Step M code S (.move environment) ⟨after,S.threads ++ [(origin,code origin)]⟩
  | drop (S : System κ L) (environment : μ) (after : σ) (index : Nat)
      (reacts : M.react environment S.shared (S.threads.map Prod.fst) = some (after,.drop index)) :
      Step M code S (.move environment) ⟨after,S.threads.eraseIdx index⟩

abbrev Condition (σ κ ω β μ : Type) := View σ κ ω → Label β μ → Prop

/-- A run from a first system, with the operations performed on the way. Every
step meets the condition in the system it leaves. -/
inductive Run (M : Machine σ ω κ μ) {L : Language σ ω β} (code : κ → L.Thread)
    (ok : Condition σ κ ω β μ) (first : System κ L) : List (κ × ω) → System κ L → Prop
  | start : Run M code ok first [] first
  | next {events : List (κ × ω)} {before after : System κ L} (label : Label β μ)
      (run : Run M code ok first events before) (allowed : ok before.view label)
      (step : Step M code before label after) : Run M code ok first (events ++ before.event label) after

variable {M : Machine σ ω κ μ} {L : Language σ ω β} {code : κ → L.Thread} {ok : Condition σ κ ω β μ}

theorem apply_step (S after : System κ L) (label : Label β μ)
    (applied : S.apply M code label = some after) : Step M code S label after := by
  cases label with
  | advance index answer =>
    cases found : S.threads[index]? with
    | none => simp [System.apply,found] at applied
    | some pair =>
      cases busy : L.operation pair.2 with
      | none => simp [System.apply,found,busy] at applied
      | some operation =>
        simp only [System.apply,found,busy,Option.map_some,Option.some.injEq] at applied
        subst after
        exact .advance S index answer pair.1 pair.2 operation found busy
  | close index =>
    cases found : S.threads[index]? with
    | none => simp [System.apply,found] at applied
    | some pair =>
      cases idle : L.operation pair.2 with
      | some operation => simp [System.apply,found,idle] at applied
      | none =>
        simp only [System.apply,found,idle,Option.isNone_none,if_true,Option.some.injEq] at applied
        subst after
        exact .close S index pair.1 pair.2 found idle
  | move environment =>
    cases reacts : M.react environment S.shared (S.threads.map Prod.fst) with
    | none => simp [System.apply,reacts] at applied
    | some pair =>
      rcases pair with ⟨changed,turn⟩
      cases turn <;> simp only [System.apply,reacts,Option.some.injEq] at applied <;> subst after
      · exact .keep S environment changed reacts
      · exact .spawn S environment changed _ reacts
      · exact .drop S environment changed _ reacts

theorem Run.trans {first middle last : System κ L} {front back : List (κ × ω)}
    (left : Run M code ok first front middle) (right : Run M code ok middle back last) :
    Run M code ok first (front ++ back) last := by
  induction right with
  | start => simpa using left
  | next label _ allowed step ih =>
    rw [← List.append_assoc]
    exact .next label ih allowed step

/-- A line of a schedule: one step, or all that is left of a thread, with its end. -/
inductive Line (β μ : Type) where
  | take (label : Label β μ)
  | finish (index : Nat) (answer : β)

namespace System
variable (M : Machine σ ω κ μ) (code : κ → L.Thread) (ok : Condition σ κ ω β μ)
  [∀ view label, Decidable (ok view label)]

def take (label : Label β μ) (S : System κ L) : Option (System κ L) :=
  if ok S.view label then S.apply M code label else none

/-- Advances one thread until it has nothing left to do, and closes it. -/
def finish (index : Nat) (answer : β) : Nat → System κ L → Option (System κ L)
  | 0,_ => none
  | fuel+1,S => match S.take M code ok (.advance index answer) with
    | some after => after.finish index answer fuel
    | none => S.take M code ok (.close index)

/-- The system that a schedule leads to, if all of it can be performed. -/
def execute : List (Line β μ) → System κ L → Option (System κ L)
  | [],S => some S
  | .take label::rest,S => (S.take M code ok label).bind (execute rest)
  | .finish index answer::rest,S => (S.finish M code ok index answer 64).bind (execute rest)

/-- One step with the operation that it performs. -/
def takeEvents (label : Label β μ) (S : System κ L) : Option (List (κ × ω) × System κ L) :=
  (S.take M code ok label).map (fun after => (S.event label,after))

/-- What is left of a thread with the operations that it performs. -/
def finishEvents (index : Nat) (answer : β) : Nat → System κ L → Option (List (κ × ω) × System κ L)
  | 0,_ => none
  | fuel+1,S => match S.takeEvents M code ok (.advance index answer) with
    | some (front,after) => (after.finishEvents index answer fuel).map (fun rest => (front ++ rest.1,rest.2))
    | none => S.takeEvents M code ok (.close index)

/-- The operations that a schedule performs, and the system that it leads to. -/
def record : List (Line β μ) → System κ L → Option (List (κ × ω) × System κ L)
  | [],S => some ([],S)
  | .take label::rest,S => (S.takeEvents M code ok label).bind fun head =>
      (record rest head.2).map (fun tail => (head.1 ++ tail.1,tail.2))
  | .finish index answer::rest,S => (S.finishEvents M code ok index answer 64).bind fun head =>
      (record rest head.2).map (fun tail => (head.1 ++ tail.1,tail.2))

end System

section schedules
variable [∀ view label, Decidable (ok view label)]

theorem take_run {first last : System κ L} {label : Label β μ} (taken : first.take M code ok label = some last) :
    ∃ events, Run M code ok first events last := by
  unfold System.take at taken
  split at taken
  next allowed => exact ⟨_,.next label .start allowed (apply_step first last label taken)⟩
  next => cases taken

theorem finish_run {first last : System κ L} {index fuel : Nat} {answer : β}
    (finished : first.finish M code ok index answer fuel = some last) : ∃ events, Run M code ok first events last := by
  induction fuel generalizing first with
  | zero => cases finished
  | succ fuel ih =>
    simp only [System.finish] at finished
    split at finished
    next after taken =>
      obtain ⟨front,head⟩ := take_run taken
      obtain ⟨back,tail⟩ := ih finished
      exact ⟨_,head.trans tail⟩
    next => exact take_run finished

theorem execute_run {first last : System κ L} (schedule : List (Line β μ))
    (computed : first.execute M code ok schedule = some last) : ∃ events, Run M code ok first events last := by
  induction schedule generalizing first with
  | nil =>
    cases Option.some.inj computed
    exact ⟨[],.start⟩
  | cons line rest ih => cases line with
    | take label =>
      obtain ⟨after,taken,continued⟩ := Option.bind_eq_some_iff.mp computed
      obtain ⟨front,head⟩ := take_run taken
      obtain ⟨back,tail⟩ := ih continued
      exact ⟨_,head.trans tail⟩
    | finish index answer =>
      obtain ⟨after,finished,continued⟩ := Option.bind_eq_some_iff.mp computed
      obtain ⟨front,head⟩ := finish_run finished
      obtain ⟨back,tail⟩ := ih continued
      exact ⟨_,head.trans tail⟩

/-- A schedule that ends in a system with a computed property describes a run. -/
theorem execute_any {first : System κ L} {found : System κ L → Bool} (schedule : List (Line β μ))
    (computed : (first.execute M code ok schedule).any found = true) :
    ∃ events last, Run M code ok first events last ∧ found last = true := by
  obtain ⟨last,reached,holds⟩ := (Option.any_eq_true _ _).mp computed
  obtain ⟨events,run⟩ := execute_run schedule reached
  exact ⟨events,last,run,holds⟩

theorem takeEvents_run {first last : System κ L} {label : Label β μ} {events : List (κ × ω)}
    (taken : first.takeEvents M code ok label = some (events,last)) : Run M code ok first events last := by
  obtain ⟨after,step,same⟩ := Option.map_eq_some_iff.mp taken
  cases same
  unfold System.take at step
  split at step
  next allowed => exact .next label .start allowed (apply_step first last label step)
  next => cases step

theorem finishEvents_run {first last : System κ L} {index fuel : Nat} {answer : β} {events : List (κ × ω)}
    (finished : first.finishEvents M code ok index answer fuel = some (events,last)) : Run M code ok first events last := by
  induction fuel generalizing first events with
  | zero => cases finished
  | succ fuel ih =>
    simp only [System.finishEvents] at finished
    split at finished
    next front after taken =>
      obtain ⟨rest,continued,same⟩ := Option.map_eq_some_iff.mp finished
      cases same
      exact (takeEvents_run taken).trans (ih continued)
    next => exact takeEvents_run finished

/-- The operations that are recorded are those of a run. -/
theorem record_run {first last : System κ L} {events : List (κ × ω)} (schedule : List (Line β μ))
    (recorded : first.record M code ok schedule = some (events,last)) : Run M code ok first events last := by
  induction schedule generalizing first events with
  | nil =>
    cases Option.some.inj recorded
    exact .start
  | cons line rest ih => cases line with
    | take label =>
      obtain ⟨⟨front,after⟩,taken,continued⟩ := Option.bind_eq_some_iff.mp recorded
      obtain ⟨⟨back,reached⟩,remaining,same⟩ := Option.map_eq_some_iff.mp continued
      cases same
      exact (takeEvents_run taken).trans (ih remaining)
    | finish index answer =>
      obtain ⟨⟨front,after⟩,finished,continued⟩ := Option.bind_eq_some_iff.mp recorded
      obtain ⟨⟨back,reached⟩,remaining,same⟩ := Option.map_eq_some_iff.mp continued
      cases same
      exact (finishEvents_run finished).trans (ih remaining)

/-- A schedule whose operations and last system have a computed property describes a run. -/
theorem record_any {first : System κ L} {found : List (κ × ω) × System κ L → Bool} (schedule : List (Line β μ))
    (computed : (first.record M code ok schedule).any found = true) :
    ∃ events last, Run M code ok first events last ∧ found (events,last) = true := by
  obtain ⟨⟨events,last⟩,reached,holds⟩ := (Option.any_eq_true _ _).mp computed
  exact ⟨events,last,record_run schedule reached,holds⟩

end schedules

theorem Run.mono {weaker : Condition σ κ ω β μ} (implies : ∀ view label, ok view label → weaker view label)
    {first last : System κ L} {events : List (κ × ω)} (run : Run M code ok first events last) :
    Run M code weaker first events last := by
  induction run with
  | start => exact .start
  | next label _ allowed step ih => exact .next label ih (implies _ _ allowed) step

/-- A run meets a stronger condition as long as the states in which it need not hold are avoided. -/
theorem Run.until {strong : Condition σ κ ω β μ} {stop : View σ κ ω → Prop}
    (implies : ∀ view label, ok view label → strong view label ∨ stop view) {first last : System κ L}
    {events : List (κ × ω)} (run : Run M code ok first events last) :
    Run M code strong first events last ∨ ∃ front back middle, Run M code strong first front middle ∧
      stop middle.view ∧ Run M code ok middle back last ∧ events = front ++ back := by
  induction run with
  | start => exact .inl .start
  | @next events before after label _ allowed step ih =>
    rcases ih with strong | ⟨front,back,middle,head,stops,tail,rfl⟩
    · rcases implies _ _ allowed with meets | stops
      · exact .inl (.next label strong meets step)
      · exact .inr ⟨events,[] ++ before.event label,before,strong,stops,.next label .start allowed step,by simp⟩
    · exact .inr ⟨front,back ++ before.event label,middle,head,stops,.next label tail allowed step,
        List.append_assoc _ _ _⟩

/-- A property that every allowed step keeps holds along every run. -/
theorem Run.invariant (P : System κ L → Prop)
    (step : ∀ before label after, P before → ok before.view label → Step M code before label after → P after)
    {first last : System κ L} {events : List (κ × ω)} (run : Run M code ok first events last)
    (initial : P first) : P last := by
  induction run with
  | start => exact initial
  | next label _ allowed taken ih => exact step _ label _ ih allowed taken

/-- A property of the operations so far and the system reached, kept by every allowed step. -/
theorem Run.recorded (P : List (κ × ω) → System κ L → Prop)
    (step : ∀ events before label after, P events before → ok before.view label → Step M code before label after →
      P (events ++ before.event label) after)
    {first last : System κ L} {events : List (κ × ω)} (run : Run M code ok first events last)
    (initial : P [] first) : P events last := by
  induction run with
  | start => exact initial
  | next label _ allowed taken ih => exact step _ _ label _ ih allowed taken

end Interleave
