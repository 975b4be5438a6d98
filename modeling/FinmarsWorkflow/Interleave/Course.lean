import FinmarsWorkflow.Interleave.Simulation

/-! Runs with a condition on what every step leads to.
A condition on the view before a step cannot tell which branch a thread takes. The
steps of a course meet a condition on the views before and after them, and threads
that follow the programs have the same courses. -/
namespace Interleave
variable {σ ω β κ μ : Type}

/-- What is visible before a step, its label, and what is visible after it. -/
abbrev Passage (σ κ ω β μ : Type) := View σ κ ω → Label β μ → View σ κ ω → Prop

/-- A run in which every step meets a condition in the systems it leaves and reaches. -/
inductive Course (M : Machine σ ω κ μ) {L : Language σ ω β} (code : κ → L.Thread)
    (ok : Passage σ κ ω β μ) (first : System κ L) : List (κ × ω) → System κ L → Prop
  | start : Course M code ok first [] first
  | next {events : List (κ × ω)} {before after : System κ L} (label : Label β μ)
      (course : Course M code ok first events before) (allowed : ok before.view label after.view)
      (step : Step M code before label after) : Course M code ok first (events ++ before.event label) after

section courses
variable {M : Machine σ ω κ μ} {L : Language σ ω β} {code : κ → L.Thread} {passes : Passage σ κ ω β μ}
  {ok : Condition σ κ ω β μ} {first last : System κ L} {events : List (κ × ω)}

theorem Course.run (implies : ∀ before label after, passes before label after → ok before label)
    (course : Course M code passes first events last) : Run M code ok first events last := by
  induction course with
  | start => exact .start
  | next label _ allowed step ih => exact .next label ih (implies _ _ _ allowed) step

/-- A run is a course where its condition is enough, whatever the steps lead to. -/
theorem Run.course (implies : ∀ before label after, ok before label → passes before label after)
    (run : Run M code ok first events last) : Course M code passes first events last := by
  induction run with
  | start => exact .start
  | next label _ allowed step ih => exact .next label ih (implies _ _ _ allowed) step

/-- A property of the operations so far and the system reached, kept by every step of a course. -/
theorem Course.recorded (P : List (κ × ω) → System κ L → Prop)
    (step : ∀ events before label after, P events before → passes before.view label after.view →
      Step M code before label after → P (events ++ before.event label) after)
    (course : Course M code passes first events last) (initial : P [] first) : P events last := by
  induction course with
  | start => exact initial
  | next label _ allowed taken ih => exact step _ _ label _ ih allowed taken

end courses

/-- Every course of the programs is a course of the threads that follow them. -/
theorem Course.follow {ε : Type} {M : Machine σ ω κ μ} {L : Language σ ω β} {programs : κ → Program σ ω β ε Unit}
    {code : κ → L.Thread} {passes : Passage σ κ ω β μ} {first last : System κ (Program.language σ ω β ε)}
    {start : System κ L} {events : List (κ × ω)} (coded : ∀ origin, Simulated L (programs origin) (code origin))
    (alike : Alike first start)
    (course : Course M (L := Program.language σ ω β ε) programs passes first events last) :
    ∃ reached, Course M code passes start events reached ∧ Alike last reached := by
  induction course with
  | start => exact ⟨start,.start,alike⟩
  | next label _ allowed step ih =>
    obtain ⟨reached,course,alike⟩ := ih
    obtain ⟨later,taken,after⟩ := step.left coded alike
    exact ⟨later,alike.event label ▸ .next label course (alike.view ▸ after.view ▸ allowed) taken,after⟩

end Interleave
