import Mathlib.Data.List.Forall2
import FinmarsWorkflow.Interleave.System

/-! Programs followed by the threads of another language.
A language of control points may follow programs operation by operation. The
systems of both languages then have the same runs, with the same view at every
step, so that a property of what is visible can be proved on either. -/
namespace Interleave
variable {σ ω β κ μ ε α γ : Type}

/-- The threads of `L` follow a program until it ends. The postcondition relates
its result to the thread reached there. -/
def Follows (L : Language σ ω β) : Program σ ω β ε α → L.Thread → (Except ε α → L.Thread → Prop) → Prop
  | .pure value,thread,post => post (.ok value) thread
  | .raise error,thread,post => post (.error error) thread
  | .step operation rest,thread,post => L.operation thread = some operation ∧
      ∀ s b, Follows L (rest s b) (L.next thread s b) post

namespace Follows
variable {L : Language σ ω β}

theorem mono {program : Program σ ω β ε α} {thread : L.Thread} {post weaker : Except ε α → L.Thread → Prop}
    (follows : Follows L program thread post) (implies : ∀ result thread, post result thread → weaker result thread) :
    Follows L program thread weaker := by
  induction program generalizing thread with
  | pure value => exact implies _ _ follows
  | raise error => exact implies _ _ follows
  | step operation rest ih => exact ⟨follows.1,fun s b => ih s b (follows.2 s b)⟩

theorem bind {program : Program σ ω β ε α} {next : α → Program σ ω β ε γ} {thread : L.Thread}
    {middle : Except ε α → L.Thread → Prop} {post : Except ε γ → L.Thread → Prop}
    (first : Follows L program thread middle)
    (value : ∀ a reached, middle (.ok a) reached → Follows L (next a) reached post)
    (error : ∀ e reached, middle (.error e) reached → post (.error e) reached) :
    Follows L (program.bind next) thread post := by
  induction program generalizing thread with
  | pure a => exact value a thread first
  | raise e => exact error e thread first
  | step operation rest ih => exact ⟨first.1,fun s b => ih s b (first.2 s b)⟩

theorem outcome {program : Program σ ω β ε α} {thread : L.Thread}
    {post : Except ε (Except ε α) → L.Thread → Prop}
    (follows : Follows L program thread (fun result reached => post (.ok result) reached)) :
    Follows L program.outcome thread post := by
  induction program generalizing thread with
  | pure a => exact follows
  | raise e => exact follows
  | step operation rest ih => exact ⟨follows.1,fun s b => ih s b (follows.2 s b)⟩

theorem attempt {program : Program σ ω β ε α} {thread : L.Thread} {post : Except ε Unit → L.Thread → Prop}
    (follows : Follows L program thread (fun _ reached => post (.ok ()) reached)) :
    Follows L program.attempt thread post := by
  induction program generalizing thread with
  | pure a => exact follows
  | raise e => exact follows
  | step operation rest ih => exact ⟨follows.1,fun s b => ih s b (follows.2 s b)⟩

end Follows

/-- The thread performs what is left of the program and ends with it. -/
def Simulated (L : Language σ ω β) (program : Program σ ω β ε Unit) (thread : L.Thread) : Prop :=
  Follows L program thread (fun _ reached => L.operation reached = none)

variable {L : Language σ ω β}

theorem Simulated.operation {program : Program σ ω β ε Unit} {thread : L.Thread}
    (simulated : Simulated L program thread) :
    (Program.language σ ω β ε).operation program = L.operation thread := by
  cases program with
  | pure value => exact Eq.symm simulated
  | raise error => exact Eq.symm simulated
  | step operation rest => exact simulated.1.symm

theorem Simulated.next {program : Program σ ω β ε Unit} {thread : L.Thread} {operation : ω}
    (simulated : Simulated L program thread)
    (busy : (Program.language σ ω β ε).operation program = some operation) (s : σ) (b : β) :
    Simulated L ((Program.language σ ω β ε).next program s b) (L.next thread s b) := by
  cases program with
  | pure value => cases busy
  | raise error => cases busy
  | step operation rest => exact simulated.2 s b

/-- Two systems with the same state and threads that simulate each other in order. -/
structure Alike (S : System κ (Program.language σ ω β ε)) (C : System κ L) : Prop where
  shared : S.shared = C.shared
  threads : List.Forall₂ (fun a b => a.1 = b.1 ∧ Simulated L a.2 b.2) S.threads C.threads

namespace Alike
variable {S : System κ (Program.language σ ω β ε)} {C : System κ L}

theorem map_related {A B C : Type} {R : A → B → Prop} {f : A → C} {g : B → C} {xs : List A} {ys : List B}
    (related : List.Forall₂ R xs ys) (equal : ∀ a b, R a b → f a = g b) : xs.map f = ys.map g := by
  induction related with
  | nil => rfl
  | cons head _ ih => rw [List.map_cons,List.map_cons,equal _ _ head,ih]

theorem origins (alike : Alike S C) : S.threads.map Prod.fst = C.threads.map Prod.fst :=
  map_related alike.threads (fun _ _ related => related.1)

theorem view (alike : Alike S C) : S.view = C.view := by
  have visible : S.threads.map (fun thread => (thread.1,(Program.language σ ω β ε).operation thread.2)) =
      C.threads.map (fun thread => (thread.1,L.operation thread.2)) :=
    map_related alike.threads (fun _ _ related => by rw [related.1,related.2.operation])
  simp only [System.view,alike.shared,visible]

theorem left {index : Nat} {origin : κ} {program : Program σ ω β ε Unit} (alike : Alike S C)
    (found : S.threads[index]? = some (origin,program)) :
    ∃ thread, C.threads[index]? = some (origin,thread) ∧ Simulated L program thread := by
  have related := (List.forall₂_iff_get.mp alike.threads).2 index
  obtain ⟨bound,equal⟩ := List.getElem?_eq_some_iff.mp found
  have other : index < C.threads.length := alike.threads.length_eq ▸ bound
  have pair := related bound other
  simp only [List.get_eq_getElem,equal] at pair
  exact ⟨(C.threads[index]).2,by rw [List.getElem?_eq_getElem other,pair.1],pair.2⟩

theorem right {index : Nat} {origin : κ} {thread : L.Thread} (alike : Alike S C)
    (found : C.threads[index]? = some (origin,thread)) :
    ∃ program, S.threads[index]? = some (origin,program) ∧ Simulated L program thread := by
  have related := (List.forall₂_iff_get.mp alike.threads).2 index
  obtain ⟨bound,equal⟩ := List.getElem?_eq_some_iff.mp found
  have other : index < S.threads.length := alike.threads.length_eq ▸ bound
  have pair := related other bound
  simp only [List.get_eq_getElem,equal] at pair
  exact ⟨(S.threads[index]).2,by rw [List.getElem?_eq_getElem other,← pair.1],pair.2⟩

theorem event (alike : Alike S C) (label : Label β μ) : S.event label = C.event label := by
  cases label with
  | close => rfl
  | move => rfl
  | advance index answer =>
    simp only [System.event]
    cases found : S.threads[index]? with
    | none =>
      cases other : C.threads[index]? with
      | none => rfl
      | some pair =>
        obtain ⟨program,same,_⟩ := alike.right other
        simp [same] at found
    | some pair =>
      obtain ⟨thread,same,simulated⟩ := alike.left found
      simp only [same,simulated.operation]

end Alike

theorem forall₂_set {A B : Type} {R : A → B → Prop} {xs : List A} {ys : List B}
    (related : List.Forall₂ R xs ys) (index : Nat) (x : A) (y : B) (pair : R x y) :
    List.Forall₂ R (xs.set index x) (ys.set index y) := by
  induction related generalizing index with
  | nil => exact .nil
  | cons head tail ih => cases index with
    | zero => exact .cons pair tail
    | succ index => exact .cons head (ih index)

theorem forall₂_eraseIdx {A B : Type} {R : A → B → Prop} {xs : List A} {ys : List B}
    (related : List.Forall₂ R xs ys) (index : Nat) : List.Forall₂ R (xs.eraseIdx index) (ys.eraseIdx index) := by
  induction related generalizing index with
  | nil => exact .nil
  | cons head tail ih => cases index with
    | zero => exact tail
    | succ index => exact .cons head (ih index)

variable {M : Machine σ ω κ μ} {programs : κ → Program σ ω β ε Unit} {code : κ → L.Thread}

theorem Step.left {S after : System κ (Program.language σ ω β ε)} {C : System κ L} {label : Label β μ}
    (coded : ∀ origin, Simulated L (programs origin) (code origin)) (alike : Alike S C)
    (step : Step M (L := Program.language σ ω β ε) programs S label after) :
    ∃ later, Step M code C label later ∧ Alike after later := by
  have same := alike.origins
  have shared := alike.shared
  cases step with
  | advance index answer origin program operation found busy =>
    obtain ⟨thread,other,simulated⟩ := alike.left found
    refine ⟨_,.advance C index answer origin thread operation other (simulated.operation ▸ busy),?_,?_⟩
    · rw [shared]
    · exact forall₂_set alike.threads index _ _ ⟨rfl,shared ▸ simulated.next busy S.shared answer⟩
  | close index origin program found idle =>
    obtain ⟨thread,other,simulated⟩ := alike.left found
    exact ⟨_,.close C index origin thread other (simulated.operation ▸ idle),shared,
      forall₂_eraseIdx alike.threads index⟩
  | keep environment changed reacts =>
    exact ⟨_,.keep C environment changed (shared ▸ same ▸ reacts),rfl,alike.threads⟩
  | spawn environment changed origin reacts =>
    exact ⟨_,.spawn C environment changed origin (shared ▸ same ▸ reacts),rfl,
      List.rel_append alike.threads (.cons ⟨rfl,coded origin⟩ .nil)⟩
  | drop environment changed index reacts =>
    exact ⟨_,.drop C environment changed index (shared ▸ same ▸ reacts),rfl,
      forall₂_eraseIdx alike.threads index⟩

theorem Step.right {S : System κ (Program.language σ ω β ε)} {C after : System κ L} {label : Label β μ}
    (coded : ∀ origin, Simulated L (programs origin) (code origin)) (alike : Alike S C)
    (step : Step M code C label after) :
    ∃ later, Step M (L := Program.language σ ω β ε) programs S label later ∧ Alike later after := by
  have same := alike.origins.symm
  have shared := alike.shared.symm
  cases step with
  | advance index answer origin thread operation found busy =>
    obtain ⟨program,other,simulated⟩ := alike.right found
    have running := simulated.operation.trans busy
    refine ⟨_,.advance S index answer origin program operation other running,?_,?_⟩
    · rw [shared]
    · exact forall₂_set alike.threads index _ _ ⟨rfl,shared ▸ simulated.next running S.shared answer⟩
  | close index origin thread found idle =>
    obtain ⟨program,other,simulated⟩ := alike.right found
    exact ⟨_,.close S index origin program other (simulated.operation.trans idle),alike.shared,
      forall₂_eraseIdx alike.threads index⟩
  | keep environment changed reacts =>
    exact ⟨_,.keep S environment changed (shared ▸ same ▸ reacts),rfl,alike.threads⟩
  | spawn environment changed origin reacts =>
    exact ⟨_,.spawn S environment changed origin (shared ▸ same ▸ reacts),rfl,
      List.rel_append alike.threads (.cons ⟨rfl,coded origin⟩ .nil)⟩
  | drop environment changed index reacts =>
    exact ⟨_,.drop S environment changed index (shared ▸ same ▸ reacts),rfl,
      forall₂_eraseIdx alike.threads index⟩

/-- Every run of the programs is a run of the threads that follow them. -/
theorem Run.follow {ok : Condition σ κ ω β μ} {first last : System κ (Program.language σ ω β ε)}
    {start : System κ L} {events : List (κ × ω)}
    (coded : ∀ origin, Simulated L (programs origin) (code origin)) (alike : Alike first start)
    (run : Run M (L := Program.language σ ω β ε) programs ok first events last) :
    ∃ reached, Run M code ok start events reached ∧ Alike last reached := by
  induction run with
  | start => exact ⟨start,.start,alike⟩
  | next label _ allowed step ih =>
    obtain ⟨reached,run,alike⟩ := ih
    obtain ⟨later,taken,after⟩ := step.left coded alike
    exact ⟨later,alike.event label ▸ .next label run (alike.view ▸ allowed) taken,after⟩

/-- A property of the operations so far and of both systems that joint steps keep holds at the end of every run. -/
theorem Run.joint {ok : Condition σ κ ω β μ} {first last : System κ (Program.language σ ω β ε)}
    {start : System κ L} {events : List (κ × ω)}
    (coded : ∀ origin, Simulated L (programs origin) (code origin)) (alike : Alike first start)
    (P : List (κ × ω) → System κ (Program.language σ ω β ε) → System κ L → Prop) (initial : P [] first start)
    (step : ∀ events before label after near later, Alike before near → P events before near → ok before.view label →
      Step M (L := Program.language σ ω β ε) programs before label after → Step M code near label later →
      P (events ++ before.event label) after later)
    (run : Run M (L := Program.language σ ω β ε) programs ok first events last) :
    ∃ reached, Alike last reached ∧ P events last reached := by
  induction run with
  | start => exact ⟨start,alike,initial⟩
  | next label _ allowed taken ih =>
    obtain ⟨reached,alike,holds⟩ := ih
    obtain ⟨later,follows,after⟩ := taken.left coded alike
    exact ⟨later,after,step _ _ label _ reached later alike holds allowed taken follows⟩

/-- Every run of the following threads is a run of the programs. -/
theorem Run.lead {ok : Condition σ κ ω β μ} {first : System κ (Program.language σ ω β ε)}
    {start last : System κ L} {events : List (κ × ω)}
    (coded : ∀ origin, Simulated L (programs origin) (code origin)) (alike : Alike first start)
    (run : Run M code ok start events last) :
    ∃ reached, Run M (L := Program.language σ ω β ε) programs ok first events reached ∧ Alike reached last := by
  induction run with
  | start => exact ⟨first,.start,alike⟩
  | next label _ allowed step ih =>
    obtain ⟨reached,run,alike⟩ := ih
    obtain ⟨later,taken,after⟩ := step.right coded alike
    exact ⟨later,alike.event label ▸ .next label run (alike.view.symm ▸ allowed) taken,after⟩

end Interleave
