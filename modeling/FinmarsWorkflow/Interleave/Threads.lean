import FinmarsWorkflow.Interleave.System

/-! Rules for reasoning thread by thread.
Weights are summed over lists that grow, shrink and change one entry at a time.
Local assertions need one proof for each step a thread can take and one for the
steps of all others; a history says that a run has passed a state. -/
namespace Interleave

section weights
variable {A : Type}

/-- The sum of a weight over a list of threads, rows or messages. -/
def weigh (weight : A → Nat) : List A → Nat
  | [] => 0
  | item::items => weight item + weigh weight items

@[simp] theorem weigh_nil (weight : A → Nat) : weigh weight [] = 0 := rfl

@[simp] theorem weigh_cons (weight : A → Nat) (item : A) (items : List A) :
    weigh weight (item::items) = weight item + weigh weight items := rfl

@[simp] theorem weigh_append (weight : A → Nat) (front back : List A) :
    weigh weight (front ++ back) = weigh weight front + weigh weight back := by
  induction front with
  | nil => exact (Nat.zero_add _).symm
  | cons item rest ih => rw [List.cons_append,weigh_cons,weigh_cons,ih,Nat.add_assoc]

theorem weigh_set (weight : A → Nat) (items : List A) (index : Nat) (old new : A)
    (found : items[index]? = some old) :
    weigh weight (items.set index new) + weight old = weigh weight items + weight new := by
  induction items generalizing index with
  | nil => simp at found
  | cons head rest ih => cases index with
    | zero =>
      cases Option.some.inj found
      simp only [List.set_cons_zero,weigh_cons]
      omega
    | succ index =>
      have tail := ih index (by simpa using found)
      simp only [List.set_cons_succ,weigh_cons]
      omega

theorem weigh_eraseIdx (weight : A → Nat) (items : List A) (index : Nat) (old : A)
    (found : items[index]? = some old) :
    weigh weight (items.eraseIdx index) + weight old = weigh weight items := by
  induction items generalizing index with
  | nil => simp at found
  | cons head rest ih => cases index with
    | zero =>
      cases Option.some.inj found
      simp only [List.eraseIdx_cons_zero,weigh_cons]
      omega
    | succ index =>
      have tail := ih index (by simpa using found)
      simp only [List.eraseIdx_cons_succ,weigh_cons]
      omega

theorem weight_le_weigh (weight : A → Nat) (items : List A) (item : A) (member : item ∈ items) :
    weight item ≤ weigh weight items := by
  induction items with
  | nil => simp at member
  | cons head rest ih =>
    rw [weigh_cons]
    rcases List.mem_cons.mp member with rfl | inside
    · exact Nat.le_add_right _ _
    · exact Nat.le_trans (ih inside) (Nat.le_add_left _ _)

theorem weigh_eq_zero (weight : A → Nat) (items : List A) :
    weigh weight items = 0 ↔ ∀ item ∈ items, weight item = 0 := by
  induction items with
  | nil => simp
  | cons head rest ih => simp [Nat.add_eq_zero_iff,ih]

theorem weigh_add (first second : A → Nat) (items : List A) :
    weigh (fun item => first item + second item) items = weigh first items + weigh second items := by
  induction items with
  | nil => rfl
  | cons item rest ih =>
    simp only [weigh_cons,ih]
    omega

theorem weigh_le_weigh {weight heavier : A → Nat} {items : List A} (less : ∀ item ∈ items, weight item ≤ heavier item) :
    weigh weight items ≤ weigh heavier items := by
  induction items with
  | nil => exact Nat.le_refl _
  | cons head rest ih =>
    rw [List.forall_mem_cons] at less
    exact Nat.add_le_add less.1 (ih less.2)

theorem mem_set_eraseIdx {items : List A} {index : Nat} {new item : A} (member : item ∈ items.set index new) :
    item = new ∨ item ∈ items.eraseIdx index := by
  induction items generalizing index with
  | nil => simp at member
  | cons head rest ih => cases index with
    | zero => simpa using member
    | succ index =>
      rcases List.mem_cons.mp member with rfl | inside
      · exact .inr List.mem_cons_self
      · exact (ih inside).imp_right (List.mem_cons_of_mem _)

theorem mem_set_of_eraseIdx {items : List A} {index : Nat} {new item : A} (member : item ∈ items.eraseIdx index) :
    item ∈ items.set index new := by
  obtain ⟨position,differs,found⟩ := List.mem_eraseIdx_iff_getElem?.mp member
  exact List.mem_of_getElem? ((List.getElem?_set_ne differs.symm).trans found)

theorem mem_eraseIdx_of_ne {items : List A} {index : Nat} {old item : A} (found : items[index]? = some old)
    (member : item ∈ items) (differs : item ≠ old) : item ∈ items.eraseIdx index := by
  obtain ⟨position,present⟩ := List.mem_iff_getElem?.mp member
  refine List.mem_eraseIdx_iff_getElem?.mpr ⟨position,?_,present⟩
  rintro rfl
  exact differs (Option.some.inj (present.symm.trans found))

end weights

variable {σ ω β κ μ : Type} {M : Machine σ ω κ μ} {L : Language σ ω β} {code : κ → L.Thread}
  {ok : Condition σ κ ω β μ}

theorem event_advance {S : System κ L} {index : Nat} {answer : β} {origin : κ} {thread : L.Thread} {operation : ω}
    (found : S.threads[index]? = some (origin,thread)) (busy : L.operation thread = some operation) :
    S.event (.advance index answer : Label β μ) = [(origin,operation)] := by
  simp only [System.event,found,busy,Option.map_some,Option.toList_some]

/-- Where the operations that a label performs come from. -/
theorem event_elim {S : System κ L} {label : Label β μ} {event : κ × ω} (member : event ∈ S.event label) :
    ∃ index answer origin thread operation, S.threads[index]? = some (origin,thread) ∧
      L.operation thread = some operation ∧ event = (origin,operation) ∧ label = .advance index answer := by
  cases label with
  | advance index answer =>
    cases found : S.threads[index]? with
    | none => simp [System.event,found] at member
    | some pair =>
      simp only [System.event,found,Option.mem_toList,Option.map_eq_some_iff] at member
      obtain ⟨operation,busy,same⟩ := member
      exact ⟨index,answer,pair.1,pair.2,operation,found,busy,same.symm,rfl⟩
  | close => cases member
  | move => cases member

/-- The system in which an operation of a run was performed. -/
theorem Run.performing {first last : System κ L} {events front back : List (κ × ω)} {origin : κ} {operation : ω}
    (run : Run M code ok first events last) (split : events = front ++ (origin,operation)::back) :
    ∃ (S : System κ L) (index : Nat) (thread : L.Thread), Run M code ok first front S ∧
      S.threads[index]? = some (origin,thread) ∧ L.operation thread = some operation := by
  induction run generalizing back with
  | start => simp at split
  | @next events before after label earlier allowed step ih =>
    by_cases performs : before.event label = []
    · rw [performs,List.append_nil] at split
      exact ih split
    · obtain ⟨event,member⟩ := List.exists_mem_of_ne_nil _ performs
      obtain ⟨index,answer,source,thread,performed,found,busy,rfl,rfl⟩ := event_elim member
      rw [event_advance found busy] at split
      rcases List.eq_nil_or_concat back with rfl | ⟨rest,one,rfl⟩
      · obtain ⟨rfl,same⟩ := List.append_inj' split rfl
        cases same
        exact ⟨before,index,thread,earlier,found,busy⟩
      · rw [List.concat_eq_append,← List.cons_append,← List.append_assoc] at split
        exact ih (List.append_inj' split rfl).1

section step
variable {before after : System κ L} {label : Label β μ} (step : Step M code before label after)
include step

/-- How a step changes the state. -/
theorem Step.shared_cases : after.shared = before.shared ∨
    (∃ index answer origin thread operation, label = .advance index answer ∧
      before.threads[index]? = some (origin,thread) ∧ L.operation thread = some operation ∧
      after.shared = M.effect operation before.shared) ∨
    ∃ environment turn, label = .move environment ∧
      M.react environment before.shared (before.threads.map Prod.fst) = some (after.shared,turn) := by
  cases step with
  | advance index answer origin thread operation found busy =>
    exact .inr (.inl ⟨index,answer,origin,thread,operation,rfl,found,busy,rfl⟩)
  | close => exact .inl rfl
  | keep environment changed reacts => exact .inr (.inr ⟨environment,.keep,rfl,reacts⟩)
  | spawn environment changed origin reacts => exact .inr (.inr ⟨environment,.spawn origin,rfl,reacts⟩)
  | drop environment changed index reacts => exact .inr (.inr ⟨environment,.drop index,rfl,reacts⟩)

/-- Where a thread comes from: it was there, it has advanced, or it was started. -/
theorem Step.thread_cases {origin : κ} {thread : L.Thread} (member : (origin,thread) ∈ after.threads) :
    (origin,thread) ∈ before.threads ∨
    (∃ index answer old operation, label = .advance index answer ∧ before.threads[index]? = some (origin,old) ∧
      L.operation old = some operation ∧ after.shared = M.effect operation before.shared ∧
      thread = L.next old before.shared answer) ∨
    ∃ environment, label = .move environment ∧
      M.react environment before.shared (before.threads.map Prod.fst) = some (after.shared,.spawn origin) ∧
      thread = code origin := by
  cases step with
  | advance index answer source old operation found busy =>
    rcases List.mem_or_eq_of_mem_set member with inside | same
    · exact .inl inside
    · cases same
      exact .inr (.inl ⟨index,answer,old,operation,rfl,found,busy,rfl,rfl⟩)
  | close => exact .inl (List.mem_of_mem_eraseIdx member)
  | keep => exact .inl member
  | spawn environment changed source reacts =>
    rcases List.mem_append.mp member with inside | inside
    · exact .inl inside
    · cases List.mem_singleton.mp inside
      exact .inr (.inr ⟨environment,rfl,reacts,rfl⟩)
  | drop => exact .inl (List.mem_of_mem_eraseIdx member)

end step

/-- What an advance makes of its thread and of the state. -/
theorem Step.advances {before after : System κ L} {index : Nat} {answer : β} {origin : κ} {thread : L.Thread} {operation : ω}
    (step : Step M code before (.advance index answer) after) (found : before.threads[index]? = some (origin,thread))
    (busy : L.operation thread = some operation) :
    after.shared = M.effect operation before.shared ∧ (origin,L.next thread before.shared answer) ∈ after.threads := by
  cases step with
  | advance _ _ source old performed there moves =>
    cases Option.some.inj (found.symm.trans there)
    cases Option.some.inj (busy.symm.trans moves)
    exact ⟨rfl,List.mem_of_getElem? (List.getElem?_set_self (List.getElem?_eq_some_iff.mp found).1)⟩

/-- Where a thread goes: it stays, it advances, or it is at its end or dropped. -/
theorem Step.remains {before after : System κ L} {label : Label β μ} {origin : κ} {thread : L.Thread}
    (step : Step M code before label after) (member : (origin,thread) ∈ before.threads) :
    (origin,thread) ∈ after.threads ∨
    (∃ index answer operation, label = .advance index answer ∧ before.threads[index]? = some (origin,thread) ∧
      L.operation thread = some operation ∧ after.shared = M.effect operation before.shared ∧
      (origin,L.next thread before.shared answer) ∈ after.threads) ∨
    L.operation thread = none ∨
    ∃ environment index, label = .move environment ∧ before.threads[index]? = some (origin,thread) ∧
      M.react environment before.shared (before.threads.map Prod.fst) = some (after.shared,.drop index) := by
  obtain ⟨place,there⟩ := List.mem_iff_getElem?.mp member
  cases step with
  | advance index answer source old operation found busy =>
    by_cases same : index = place
    · subst place
      cases Option.some.inj (found.symm.trans there)
      exact .inr (.inl ⟨index,answer,operation,rfl,found,busy,rfl,
        List.mem_of_getElem? (List.getElem?_set_self (List.getElem?_eq_some_iff.mp found).1)⟩)
    · exact .inl (List.mem_of_getElem? ((List.getElem?_set_ne same).trans there))
  | close index source old found idle =>
    by_cases same : index = place
    · subst place
      cases Option.some.inj (found.symm.trans there)
      exact .inr (.inr (.inl idle))
    · exact .inl (List.mem_eraseIdx_iff_getElem?.mpr ⟨place,Ne.symm same,there⟩)
  | keep => exact .inl member
  | spawn => exact .inl (List.mem_append_left _ member)
  | drop environment changed index reacts =>
    by_cases same : index = place
    · subst place
      exact .inr (.inr (.inr ⟨environment,index,rfl,there,reacts⟩))
    · exact .inl (List.mem_eraseIdx_iff_getElem?.mpr ⟨place,Ne.symm same,there⟩)

/-- The state that a label leads to, as far as it can be seen. -/
def View.after (M : Machine σ ω κ μ) (view : View σ κ ω) : Label β μ → σ
  | .advance index _ => match view.threads[index]? with
    | some (_,some operation) => M.effect operation view.shared
    | _ => view.shared
  | .close _ => view.shared
  | .move environment => match M.react environment view.shared (view.threads.map Prod.fst) with
    | some (after,_) => after
    | none => view.shared

theorem System.view_found {S : System κ L} {index : Nat} {origin : κ} {thread : L.Thread}
    (found : S.threads[index]? = some (origin,thread)) : S.view.threads[index]? = some (origin,L.operation thread) := by
  rw [System.view,List.getElem?_map,found]
  rfl

theorem Step.view_after {before after : System κ L} {label : Label β μ} (step : Step M code before label after) :
    before.view.after M label = after.shared := by
  have origins : before.view.threads.map Prod.fst = before.threads.map Prod.fst := by
    rw [System.view,List.map_map]
    rfl
  cases step with
  | advance index answer origin thread operation found busy =>
    have seen := System.view_found found
    rw [busy] at seen
    simp only [View.after,seen]
    rfl
  | close => rfl
  | keep environment changed reacts | spawn environment changed origin reacts | drop environment changed index reacts =>
    simp only [View.after,origins]
    change (match M.react environment before.shared _ with | some (state,_) => state | none => before.shared) = changed
    rw [reacts]

/-- An invariant of the state with a local assertion for each thread. -/
structure Locally (inv : σ → Prop) (holds : σ → κ → L.Thread → Prop) (S : System κ L) : Prop where
  shared : inv S.shared
  threads : ∀ thread ∈ S.threads, holds S.shared thread.1 thread.2

/-- Local assertions are kept when each step keeps the invariant and changes the
state in a way that leaves the assertions of all other threads true. -/
theorem Step.locally {inv : σ → Prop} {holds : σ → κ → L.Thread → Prop} (grows : σ → σ → Prop)
    (same : ∀ s, grows s s)
    (stable : ∀ s later origin thread, grows s later → holds s origin thread → holds later origin thread)
    {before after : System κ L} {label : Label β μ} (step : Step M code before label after)
    (advance : ∀ origin thread operation answer, (origin,thread) ∈ before.threads →
      holds before.shared origin thread → L.operation thread = some operation →
        inv (M.effect operation before.shared) ∧ grows before.shared (M.effect operation before.shared) ∧
        holds (M.effect operation before.shared) origin (L.next thread before.shared answer))
    (move : ∀ environment changed turn, label = .move environment →
      M.react environment before.shared (before.threads.map Prod.fst) = some (changed,turn) →
      inv changed ∧ grows before.shared changed ∧ ∀ origin, turn = .spawn origin → holds changed origin (code origin))
    (locally_ : Locally inv holds before) : Locally inv holds after ∧ grows before.shared after.shared := by
  obtain ⟨shared,threads⟩ := locally_
  have changes : inv after.shared ∧ grows before.shared after.shared := by
    rcases step.shared_cases with equal | ⟨index,answer,origin,thread,operation,_,found,busy,equal⟩ |
      ⟨environment,turn,moves,reacts⟩
    · rw [equal]
      exact ⟨shared,same _⟩
    · have member := List.mem_of_getElem? found
      have kept := advance origin thread operation answer member (threads _ member) busy
      rw [equal]
      exact ⟨kept.1,kept.2.1⟩
    · have kept := move environment after.shared turn moves reacts
      exact ⟨kept.1,kept.2.1⟩
  refine ⟨⟨changes.1,fun (origin,thread) member => ?_⟩,changes.2⟩
  rcases step.thread_cases member with inside | ⟨index,answer,old,operation,_,found,busy,equal,rfl⟩ |
    ⟨environment,moves,reacts,rfl⟩
  · exact stable _ _ _ _ changes.2 (threads _ inside)
  · have present := List.mem_of_getElem? found
    rw [equal]
    exact (advance origin old operation answer present (threads _ present) busy).2.2
  · exact (move environment after.shared (.spawn origin) moves reacts).2.2 origin rfl

/-- The operations of a run are split at such a state: some lead to it, and the others on from it. -/
def Passed (M : Machine σ ω κ μ) (code : κ → L.Thread) (ok : Condition σ κ ω β μ) (first : System κ L)
    (events : List (κ × ω)) (last : System κ L) (state : σ → Prop) : Prop :=
  ∃ front back middle, events = front ++ back ∧ Run M code ok first front middle ∧ state middle.shared ∧
    Run M code ok middle back last

section passed
variable {first last : System κ L} {events : List (κ × ω)} {state : σ → Prop}

theorem Passed.now (run : Run M code ok first events last) (holds : state last.shared) :
    Passed M code ok first events last state :=
  ⟨events,[],last,(List.append_nil _).symm,run,holds,.start⟩

theorem Passed.mono {weaker : σ → Prop} (implies : ∀ s, state s → weaker s)
    (passed : Passed M code ok first events last state) : Passed M code ok first events last weaker := by
  obtain ⟨front,back,middle,split,head,holds,tail⟩ := passed
  exact ⟨front,back,middle,split,head,implies _ holds,tail⟩

theorem Passed.step {after : System κ L} {label : Label β μ} (passed : Passed M code ok first events last state)
    (allowed : ok last.view label) (step : Step M code last label after) :
    Passed M code ok first (events ++ last.event label) after state := by
  obtain ⟨front,back,middle,rfl,head,holds,tail⟩ := passed
  exact ⟨front,back ++ last.event label,middle,List.append_assoc _ _ _,head,holds,.next label tail allowed step⟩

end passed

end Interleave
