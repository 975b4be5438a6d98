import Mathlib.Logic.Basic

/-! Networks of deterministic processes.
Each process has named inputs, and an input is fed by the value of another process or
by nothing. A value is computed from those of the feeding processes, so that there is
at most one, whoever computes them in whatever order. -/
namespace Interleave

structure Network (ν ι α : Type) where
  /-- the process whose value an input takes -/
  feeds : ν → ι → Option ν
  /-- the value of a process from its inputs, none for those that nothing feeds -/
  compute : ν → (ι → Option α) → α

namespace Network
variable {ν ι α : Type} {net : Network ν ι α}

/-- What a process computes: `given` are the values at its inputs. -/
inductive Computes (net : Network ν ι α) : ν → α → Prop
  | node (process : ν) (given : ι → α)
      (fed : ∀ input source, net.feeds process input = some source → Computes net source (given input)) :
      Computes net process (net.compute process (fun input => (net.feeds process input).map (fun _ => given input)))

/-- A process computes at most one value: the inputs that are fed agree by induction. -/
theorem Computes.unique {process : ν} {value other : α} (first : Computes net process value)
    (second : Computes net process other) : value = other := by
  induction first generalizing other with
  | node process given fed ih =>
    cases second with
    | node _ others feed =>
      congr 1
      funext input
      cases feeds : net.feeds process input with
      | none => rfl
      | some source => exact congrArg some (ih input source feeds (feed input source feeds))

/-- The value from inputs that hold what feeds them, and nothing where nothing does. -/
theorem Computes.of_inputs {process : ν} (inputs : ι → Option α)
    (fed : ∀ input source, net.feeds process input = some source →
      ∃ value, inputs input = some value ∧ Computes net source value)
    (unfed : ∀ input, net.feeds process input = none → inputs input = none) :
    Computes net process (net.compute process inputs) := by
  -- an input that nothing feeds may be given anything, such as the value itself
  have given := Computes.node process (fun input => (inputs input).getD (net.compute process inputs)) (fun input source feeds => by
    obtain ⟨value,there,computed⟩ := fed input source feeds
    rw [there]
    exact computed)
  have same : (fun input => (net.feeds process input).map (fun _ => (inputs input).getD (net.compute process inputs))) = inputs := by
    funext input
    cases feeds : net.feeds process input with
    | none => exact (unfed input feeds).symm
    | some source =>
      obtain ⟨value,there,_⟩ := fed input source feeds
      simp only [there,Option.map_some,Option.getD_some]
  rwa [same] at given

end Network
end Interleave
