import Mathlib.Logic.Function.Basic
import FinmarsWorkflow.Interleave.Simulation

/-! Threads that share their processes among several stores.
A process has one store selected at a time, and whatever the thread before it selected
stays selected. A thread that selects the store of its own key before it acts leaves
that store to a run of the same programs on a store of their own, whatever is selected
where it starts. -/
namespace Interleave

inductive Choice (κ ω : Type) where
  | select (key : κ)
  /-- on the store that is selected -/
  | act (operation : ω)
  /-- on the store of a key, whichever is selected -/
  | direct (key : κ) (operation : ω)

/-- Programs that choose their store: they read the one that is selected, and its place. -/
abbrev Roaming (κ ρ σ ω β ε α : Type) := Program (σ × ρ) (Choice κ ω) β ε α

variable {κ ρ σ ω β ε α γ O μ : Type}

/-- With a store selected, the program does in the store of its key what the plain program
does on a store of its own, and nothing elsewhere. It ends with a store of this kind selected. -/
inductive Abides (key : κ) (place : ρ) (ends : κ → Prop) : κ → Roaming κ ρ σ ω β ε α → Program σ ω β ε α → Prop
  | pure (path : κ) (value : α) (there : ends path) : Abides key place ends path (.pure value) (.pure value)
  | raise (path : κ) (error : ε) : Abides key place ends path (.raise error) (.raise error)
  | select (path target : κ) (rest : σ × ρ → β → Roaming κ ρ σ ω β ε α) (plain : Program σ ω β ε α)
      (goes : ∀ state b, Abides key place ends target (rest state b) plain) :
      Abides key place ends path (.step (.select target) rest) plain
  | act (operation : ω) (rest : σ × ρ → β → Roaming κ ρ σ ω β ε α) (next : σ → β → Program σ ω β ε α)
      (goes : ∀ s b, Abides key place ends key (rest (s,place) b) (next s b)) :
      Abides key place ends key (.step (.act operation) rest) (.step operation next)
  | direct (operation : ω) (rest : σ × ρ → β → Roaming κ ρ σ ω β ε α) (next : σ → β → Program σ ω β ε α)
      (goes : ∀ s b, Abides key place ends key (rest (s,place) b) (next s b)) :
      Abides key place ends key (.step (.direct key operation) rest) (.step operation next)

namespace Abides
variable {key path : κ} {place : ρ} {ends : κ → Prop} {program : Roaming κ ρ σ ω β ε α} {plain : Program σ ω β ε α}

theorem mono {more : κ → Prop} (abides : Abides key place ends path program plain) (wider : ∀ path, ends path → more path) :
    Abides key place more path program plain := by
  induction abides with
  | pure path value there => exact .pure path value (wider path there)
  | raise path error => exact .raise path error
  | select path target rest plain _ ih => exact .select path target rest plain ih
  | act operation rest next _ ih => exact .act operation rest next ih
  | direct operation rest next _ ih => exact .direct operation rest next ih

theorem bind {last : κ → Prop} {next : α → Roaming κ ρ σ ω β ε γ} {follows : α → Program σ ω β ε γ}
    (first : Abides key place ends path program plain)
    (second : ∀ path value, ends path → Abides key place last path (next value) (follows value)) :
    Abides key place last path (program.bind next) (plain.bind follows) := by
  induction first with
  | pure path value there => exact second path value there
  | raise path error => exact .raise path error
  | select path target rest plain _ ih => exact .select path target _ _ ih
  | act operation rest next _ ih => exact .act operation _ _ ih
  | direct operation rest next _ ih => exact .direct operation _ _ ih

theorem outcome (first : Abides key place ends path program plain) :
    Abides key place (fun _ => True) path program.outcome plain.outcome := by
  induction first with
  | pure path value there => exact .pure path _ trivial
  | raise path error => exact .pure path _ trivial
  | select path target rest plain _ ih => exact .select path target _ _ ih
  | act operation rest next _ ih => exact .act operation _ _ ih
  | direct operation rest next _ ih => exact .direct operation _ _ ih

theorem attempt (first : Abides key place ends path program plain) :
    Abides key place (fun _ => True) path program.attempt plain.attempt :=
  first.outcome.bind (fun path _ _ => .pure path () trivial)

end Abides

/-- A program after which a store is selected, whether it returns or raises. -/
def Program.leaving (key : κ) (program : Roaming κ ρ σ ω β ε α) : Roaming κ ρ σ ω β ε α :=
  program.outcome.bind (fun result => .step (.select key) (fun _ _ => .lift result))

theorem Abides.leaving {key path target : κ} {place : ρ} {ends : κ → Prop} {program : Roaming κ ρ σ ω β ε α}
    {plain : Program σ ω β ε α} (abides : Abides key place ends path program plain) :
    Abides key place (fun _ => True) path (program.leaving target) plain := by
  induction abides with
  | pure path value there => exact .select path target _ _ (fun _ _ => .pure target value trivial)
  | raise path error => exact .select path target _ _ (fun _ _ => .raise target error)
  | select path chosen rest plain _ ih => exact .select path chosen _ _ ih
  | act operation rest next _ ih => exact .act operation _ _ ih
  | direct operation rest next _ ih => exact .direct operation _ _ ih

/-- What the next choice of a thread is: another selection, or what the plain program does in the store of the key. -/
theorem Abides.choice {key path : κ} {place : ρ} {ends : κ → Prop} {choice : Choice κ ω}
    {rest : σ × ρ → β → Roaming κ ρ σ ω β ε α} {plain : Program σ ω β ε α}
    (abides : Abides key place ends path (.step choice rest) plain) :
    (∃ target, choice = .select target ∧ ∀ state b, Abides key place ends target (rest state b) plain) ∨
      path = key ∧ ∃ operation next, plain = .step operation next ∧ (choice = .act operation ∨ choice = .direct key operation) ∧
        ∀ s b, Abides key place ends key (rest (s,place) b) (next s b) := by
  cases abides with
  | select _ target _ _ goes => exact .inl ⟨target,rfl,goes⟩
  | act operation rest next goes => exact .inr ⟨rfl,operation,next,rfl,.inl rfl,goes⟩
  | direct operation rest next goes => exact .inr ⟨rfl,operation,next,rfl,.inr rfl,goes⟩

/-- A program that has ended belongs to one that has ended. -/
theorem Abides.ended {key path : κ} {place : ρ} {ends : κ → Prop} {program : Roaming κ ρ σ ω β ε Unit}
    {plain : Program σ ω β ε Unit} (abides : Abides key place ends path program plain)
    (idle : (Program.language (σ × ρ) (Choice κ ω) β ε).operation program = none) :
    (Program.language σ ω β ε).operation plain = none := by
  cases abides with
  | pure | raise => rfl
  | select | act | direct => cases idle

/-- A program that takes the selected store for its own. -/
def Program.here : Program σ ω β ε α → Roaming κ ρ σ ω β ε α
  | .pure value => .pure value
  | .raise error => .raise error
  | .step operation rest => .step (.act operation) (fun state b => (rest state.1 b).here)

theorem Abides.here {key : κ} {place : ρ} {ends : κ → Prop} (plain : Program σ ω β ε α) (there : ends key) :
    Abides key place ends key plain.here plain := by
  induction plain with
  | pure value => exact .pure key value there
  | raise error => exact .raise key error
  | step operation rest ih => exact .act operation _ rest ih

/-- A thread of a process: the store that is selected, and what is left of its program. -/
structure Connection (κ ρ σ ω β ε : Type) where
  selected : κ
  program : Roaming κ ρ σ ω β ε Unit

/-- The stores with the threads that are at work for their keys. -/
structure Cluster (κ ρ σ ω β ε O : Type) where
  stores : κ → σ
  threads : κ → List (O × Connection κ ρ σ ω β ε)

inductive Act (κ β μ : Type) where
  | advance (key : κ) (index : Nat) (answer : β)
  | close (key : κ) (index : Nat)
  /-- a new thread runs on a process where some store is selected -/
  | move (key : κ) (environment : μ) (selected : κ)

/-- The store that is selected after a choice. -/
def Choice.path (path : κ) : Choice κ ω → κ
  | .select key => key
  | .act _ | .direct _ _ => path

/-- A system on one store has the threads of its key, as far as they act. -/
structure Matched (key : κ) (place : ρ) (S : Cluster κ ρ σ ω β ε O) (P : System O (Program.language σ ω β ε)) : Prop where
  shared : P.shared = S.stores key
  threads : List.Forall₂ (fun thread program => thread.1 = program.1 ∧
    Abides key place (fun _ => True) thread.2.selected thread.2.program program.2) (S.threads key) P.threads

namespace Matched
variable {key : κ} {place : ρ} {S : Cluster κ ρ σ ω β ε O} {P : System O (Program.language σ ω β ε)}

theorem origins (matched : Matched key place S P) : P.threads.map Prod.fst = (S.threads key).map Prod.fst :=
  (Alike.map_related matched.threads (fun _ _ related => related.1)).symm

theorem found (matched : Matched key place S P) {index : Nat} {origin : O} {connection : Connection κ ρ σ ω β ε}
    (found : (S.threads key)[index]? = some (origin,connection)) : ∃ program, P.threads[index]? = some (origin,program) ∧
      Abides key place (fun _ => True) connection.selected connection.program program := by
  have related := (List.forall₂_iff_get.mp matched.threads).2 index
  obtain ⟨bound,equal⟩ := List.getElem?_eq_some_iff.mp found
  have other : index < P.threads.length := matched.threads.length_eq ▸ bound
  have pair := related bound other
  simp only [List.get_eq_getElem,equal] at pair
  exact ⟨(P.threads[index]).2,by rw [List.getElem?_eq_getElem other,pair.1],pair.2⟩

end Matched

variable [DecidableEq κ]

/-- The stores after a choice. -/
def Choice.apply (effect : ω → σ → σ) (path : κ) (stores : κ → σ) : Choice κ ω → κ → σ
  | .select _ => stores
  | .act operation => Function.update stores path (effect operation (stores path))
  | .direct key operation => Function.update stores key (effect operation (stores key))

namespace Cluster
variable (M : Machine σ ω O μ) (places : κ → ρ) (code : κ → O → Roaming κ ρ σ ω β ε Unit)

/-- One step of a thread, the end of one, or a move of the environment of one store. -/
def take (S : Cluster κ ρ σ ω β ε O) : Act κ β μ → Option (Cluster κ ρ σ ω β ε O)
  | .advance key index answer => match (S.threads key)[index]? with
    | some (origin,⟨path,.step choice rest⟩) => some
      ⟨choice.apply M.effect path S.stores,Function.update S.threads key
        ((S.threads key).set index (origin,⟨choice.path path,rest (S.stores path,places path) answer⟩))⟩
    | _ => none
  | .close key index => match (S.threads key)[index]? with
    | some (_,connection) => if ((Program.language (σ × ρ) (Choice κ ω) β ε).operation connection.program).isNone
        then some ⟨S.stores,Function.update S.threads key ((S.threads key).eraseIdx index)⟩ else none
    | none => none
  | .move key environment path => match M.react environment (S.stores key) ((S.threads key).map Prod.fst) with
    | some (after,.keep) => some ⟨Function.update S.stores key after,S.threads⟩
    | some (after,.spawn origin) => some ⟨Function.update S.stores key after,
        Function.update S.threads key (S.threads key ++ [(origin,⟨path,code key origin⟩)])⟩
    | some (after,.drop index) => some ⟨Function.update S.stores key after,
        Function.update S.threads key ((S.threads key).eraseIdx index)⟩
    | none => none

/-- Steps one after the other. -/
def perform : List (Act κ β μ) → Cluster κ ρ σ ω β ε O → Option (Cluster κ ρ σ ω β ε O)
  | [],S => some S
  | act::rest,S => (S.take M places code act).bind (perform rest)

end Cluster

/-- The key that a step is about. -/
def Act.key : Act κ β μ → κ
  | .advance key _ _ | .close key _ | .move key _ _ => key

section step
variable {M : Machine σ ω O μ} {places : κ → ρ} {code : κ → O → Roaming κ ρ σ ω β ε Unit}
  {plain : O → Program σ ω β ε Unit} {before after : Cluster κ ρ σ ω β ε O} {key : κ}
  {P : System O (Program.language σ ω β ε)}

/-- The system of a key takes part in a step, or nothing happens there. -/
abbrev TakesPart (M : Machine σ ω O μ) (plain : O → Program σ ω β ε Unit) (key : κ) (place : ρ)
    (P : System O (Program.language σ ω β ε)) (after : Cluster κ ρ σ ω β ε O) : Prop :=
  Matched key place after P ∨ ∃ label later, Step M plain P label later ∧ Matched key place after later

theorem matched_advance {index : Nat} {answer : β} (matched : Matched key (places key) before P)
    (taken : before.take M places code (.advance key index answer) = some after) :
    TakesPart M plain key (places key) P after := by
  simp only [Cluster.take] at taken
  split at taken
  next origin path choice rest found =>
    cases Option.some.inj taken
    obtain ⟨program,there,abides⟩ := matched.found found
    rcases abides.choice with ⟨target,rfl,goes⟩ | ⟨same,operation,next,rfl,chosen,goes⟩
    · left
      refine ⟨matched.shared,?_⟩
      have same : P.threads.set index (origin,program) = P.threads := by
        obtain ⟨bound,equal⟩ := List.getElem?_eq_some_iff.mp there
        rw [← equal,List.set_getElem_self]
      simp only [Function.update_self]
      rw [← same]
      exact forall₂_set matched.threads index _ _ ⟨rfl,goes _ _⟩
    · right
      have here : path = key := same
      subst path
      have path : Choice.path key choice = key := by rcases chosen with rfl | rfl <;> rfl
      have store : Choice.apply M.effect key before.stores choice key = M.effect operation (before.stores key) := by
        rcases chosen with rfl | rfl <;> simp only [Choice.apply,Function.update_self]
      refine ⟨.advance index answer,_,.advance P index answer origin (.step operation next) operation there rfl,?_,?_⟩
      · exact (congrArg (M.effect operation) matched.shared).trans store.symm
      · simp only [Function.update_self,path]
        refine forall₂_set matched.threads index _ _ ⟨rfl,?_⟩
        rw [matched.shared]
        exact goes (before.stores key) answer
  next => cases taken

theorem matched_close {index : Nat} (matched : Matched key (places key) before P)
    (taken : before.take (β := β) M places code (.close key index) = some after) : TakesPart M plain key (places key) P after := by
  simp only [Cluster.take] at taken
  split at taken
  next origin connection found =>
    split at taken
    next idle =>
      cases Option.some.inj taken
      obtain ⟨program,there,abides⟩ := matched.found found
      have ended := abides.ended (Option.isNone_iff_eq_none.mp idle)
      refine .inr ⟨.close index,_,.close P index origin program there ended,matched.shared,?_⟩
      simp only [Function.update_self]
      exact forall₂_eraseIdx matched.threads index
    next => cases taken
  next => cases taken

theorem matched_move {environment : μ} {path : κ}
    (coded : ∀ state origins after origin, M.react environment state origins = some (after,.spawn origin) →
      Abides key (places key) (fun _ => True) path (code key origin) (plain origin)) (matched : Matched key (places key) before P)
    (taken : before.take M places code (.move key environment path) = some after) :
    TakesPart M plain key (places key) P after := by
  simp only [Cluster.take] at taken
  have reacts : M.react environment P.shared (P.threads.map Prod.fst) =
      M.react environment (before.stores key) ((before.threads key).map Prod.fst) := by rw [matched.shared,matched.origins]
  split at taken
  next changed found =>
    cases Option.some.inj taken
    refine .inr ⟨.move environment,_,.keep P environment changed (reacts.trans found),?_,matched.threads⟩
    simp only [Function.update_self]
  next changed origin found =>
    cases Option.some.inj taken
    refine .inr ⟨.move environment,_,.spawn P environment changed origin (reacts.trans found),?_,?_⟩
    · simp only [Function.update_self]
    · simp only [Function.update_self]
      exact List.rel_append matched.threads (.cons ⟨rfl,coded _ _ _ origin found⟩ .nil)
  next changed index found =>
    cases Option.some.inj taken
    refine .inr ⟨.move environment,_,.drop P environment changed index (reacts.trans found),?_,?_⟩
    · simp only [Function.update_self]
    · simp only [Function.update_self]
      exact forall₂_eraseIdx matched.threads index
  next => cases taken

theorem matched_take {act : Act κ β μ}
    (coded : ∀ environment path state origins after origin, act = .move key environment path →
      M.react environment state origins = some (after,.spawn origin) →
      Abides key (places key) (fun _ => True) path (code key origin) (plain origin))
    (about : act.key = key) (matched : Matched key (places key) before P)
    (taken : before.take M places code act = some after) : TakesPart M plain key (places key) P after := by
  cases act with
  | advance =>
    cases about
    exact matched_advance matched taken
  | close =>
    cases about
    exact matched_close matched taken
  | move key environment path =>
    cases about
    exact matched_move (fun _ _ _ origin => coded environment path _ _ _ origin rfl) matched taken

/-- A step for a key leaves the other ones alone. -/
theorem take_frame {act : Act κ β μ} (matched : Matched act.key (places act.key) before P)
    (taken : before.take M places code act = some after) {other : κ} (apart : other ≠ act.key) :
    after.stores other = before.stores other ∧ after.threads other = before.threads other := by
  cases act with
  | advance key index answer =>
    have apart : other ≠ key := apart
    simp only [Cluster.take] at taken
    split at taken
    next origin path choice rest found =>
      cases Option.some.inj taken
      refine ⟨?_,Function.update_of_ne apart _ _⟩
      obtain ⟨_,_,abides⟩ := matched.found found
      rcases abides.choice with ⟨_,rfl,_⟩ | ⟨same,_,_,_,chosen,_⟩
      · rfl
      · have here : path = key := same
        rcases chosen with rfl | rfl
        · exact Function.update_of_ne (here ▸ apart) _ _
        · exact Function.update_of_ne apart _ _
    next => cases taken
  | close key index =>
    simp only [Cluster.take] at taken
    split at taken
    · split at taken
      · cases Option.some.inj taken
        exact ⟨rfl,Function.update_of_ne apart _ _⟩
      · cases taken
    · cases taken
  | move key environment path =>
    have apart : other ≠ key := apart
    simp only [Cluster.take] at taken
    split at taken
    · cases Option.some.inj taken
      exact ⟨Function.update_of_ne apart _ _,rfl⟩
    · cases Option.some.inj taken
      exact ⟨Function.update_of_ne apart _ _,Function.update_of_ne apart _ _⟩
    · cases Option.some.inj taken
      exact ⟨Function.update_of_ne apart _ _,Function.update_of_ne apart _ _⟩
    · cases taken

end step

section perform
variable {M : Machine σ ω O μ} {places : κ → ρ} {code : κ → O → Roaming κ ρ σ ω β ε Unit} {plain : κ → O → Program σ ω β ε Unit}
  {served : κ → Prop} {fair : κ → O → Prop}
  (coded : ∀ key, served key → ∀ path origin, fair key origin →
    Abides key (places key) (fun _ => True) path (code key origin) (plain key origin))
include coded

theorem perform_matched (acts : List (Act κ β μ)) (within : ∀ act ∈ acts, served act.key)
    (started : ∀ key environment path, .move key environment path ∈ acts → ∀ state origins after origin,
      M.react environment state origins = some (after,.spawn origin) → fair key origin) {start : κ → σ}
    {first last : Cluster κ ρ σ ω β ε O} (performed : first.perform M places code acts = some last)
    (others : ∀ key, ¬served key → first.stores key = start key)
    (follows : ∀ key, served key → ∃ events P, Run M (L := Program.language σ ω β ε) (plain key) (fun _ _ => True) ⟨start key,[]⟩ events P ∧
      Matched key (places key) first P) :
    (∀ key, ¬served key → last.stores key = start key) ∧
    ∀ key, served key → ∃ events P, Run M (L := Program.language σ ω β ε) (plain key) (fun _ _ => True) ⟨start key,[]⟩ events P ∧
      Matched key (places key) last P := by
  induction acts generalizing first with
  | nil =>
    cases Option.some.inj performed
    exact ⟨others,follows⟩
  | cons act rest ih =>
    obtain ⟨middle,taken,continued⟩ := Option.bind_eq_some_iff.mp performed
    have here := within act List.mem_cons_self
    obtain ⟨events,P,run,matched⟩ := follows act.key here
    have frame {other : κ} (apart : other ≠ act.key) := take_frame matched taken apart
    refine ih (fun other inside => within other (List.mem_cons_of_mem _ inside))
      (fun key environment path inside => started key environment path (List.mem_cons_of_mem _ inside)) continued (fun key away => ?_) (fun key serves => ?_)
    · rw [(@frame key (fun same => away (same ▸ here))).1]
      exact others key away
    · by_cases same : act.key = key
      · subst same
        rcases matched_take (fun environment path state origins after origin same reacts => coded _ here path origin
          (started _ environment path (same ▸ List.mem_cons_self) state origins after origin reacts)) rfl matched taken with stays | ⟨label,later,step,moves⟩
        · exact ⟨events,P,run,stays⟩
        · exact ⟨_,later,.next label run trivial step,moves⟩
      · obtain ⟨story,Q,other,kept⟩ := follows key serves
        obtain ⟨store,threads⟩ := frame (Ne.symm same)
        exact ⟨story,Q,other,⟨kept.shared.trans store.symm,threads ▸ kept.threads⟩⟩

/-- As long as threads are started for some keys only, and abide there: each of their stores goes through a run of
the plain programs on a store of its own, and the other stores are left alone. -/
theorem perform_refines (acts : List (Act κ β μ)) (within : ∀ act ∈ acts, served act.key)
    (started : ∀ key environment path, .move key environment path ∈ acts → ∀ state origins after origin,
      M.react environment state origins = some (after,.spawn origin) → fair key origin) {first last : Cluster κ ρ σ ω β ε O}
    (none : ∀ key, first.threads key = []) (performed : first.perform M places code acts = some last) :
    (∀ key, ¬served key → last.stores key = first.stores key) ∧
    ∀ key, served key → ∃ events P, Run M (L := Program.language σ ω β ε) (plain key) (fun _ _ => True) ⟨first.stores key,[]⟩ events P ∧
      Matched key (places key) last P := by
  refine perform_matched coded acts within started performed (fun _ _ => rfl) (fun key _ => ⟨[],_,.start,rfl,?_⟩)
  rw [none key]
  exact .nil

end perform

end Interleave
