import Mathlib.Data.List.Nodup
import FinmarsWorkflow.Interleave.Ensures

/-! Programs that keep an eye on a part of the state.
What a program knows of the state follows from its own operations, for as long as no one
else acts on what it watches. A watched program performs what its knowledge allows, and its
result fits the knowledge that it ends with. -/
namespace Interleave
variable {σ ω β ε α γ τ : Type}

/-- What knowledge says of the state, which operations it allows, and what is known after them. -/
structure Watch (σ ω τ : Type) where
  sees : τ → σ → Prop
  allows : τ → ω → Prop
  after : τ → ω → σ → τ

namespace Program

/-- The program performs what is allowed in whatever it sees. -/
def Watched (W : Watch σ ω τ) : Program σ ω β ε α → τ → (τ → Except ε α → Prop) → Prop
  | .pure value,known,post => post known (.ok value)
  | .raise error,known,post => post known (.error error)
  | .step operation next,known,post => W.allows known operation ∧
      ∀ s b, W.sees known s → (next s b).Watched W (W.after known operation s) post

namespace Watched
variable {W : Watch σ ω τ} {program : Program σ ω β ε α} {known : τ} {post middle : τ → Except ε α → Prop}

theorem bind {next : α → Program σ ω β ε γ} {last : τ → Except ε γ → Prop} (first : program.Watched W known middle)
    (value : ∀ later a, middle later (.ok a) → (next a).Watched W later last)
    (error : ∀ later e, middle later (.error e) → last later (.error e)) : (program.bind next).Watched W known last := by
  induction program generalizing known with
  | pure a => exact value known a first
  | raise e => exact error known e first
  | step operation rest ih => exact ⟨first.1,fun s b sees => ih s b (first.2 s b sees)⟩

theorem handle {next : Except ε α → Program σ ω β ε γ} {last : τ → Except ε γ → Prop} (first : program.Watched W known middle)
    (result : ∀ later r, middle later r → (next r).Watched W later last) : (program.outcome.bind next).Watched W known last := by
  induction program generalizing known with
  | pure a => exact result known (.ok a) first
  | raise e => exact result known (.error e) first
  | step operation rest ih => exact ⟨first.1,fun s b sees => ih s b (first.2 s b sees)⟩

theorem mono {weaker : τ → Except ε α → Prop} (first : program.Watched W known post)
    (implies : ∀ later r, post later r → weaker later r) : program.Watched W known weaker := by
  induction program generalizing known with
  | pure a => exact implies _ _ first
  | raise e => exact implies _ _ first
  | step operation rest ih => exact ⟨first.1,fun s b sees => ih s b (first.2 s b sees)⟩

/-- A program that a fixed knowledge allows everything it does. -/
theorem fixed {may : ω → Prop} {result : Except ε α → Prop} (ensures : program.Ensures (fun _ => True) may result)
    (allows : ∀ operation, may operation → W.allows known operation)
    (stays : ∀ operation s, may operation → W.after known operation s = known) :
    program.Watched W known (fun later r => later = known ∧ result r) := by
  induction program with
  | pure a => exact ⟨rfl,ensures⟩
  | raise e => exact ⟨rfl,ensures⟩
  | step operation rest ih =>
    refine ⟨allows _ ensures.1,fun s b _ => ?_⟩
    rw [stays operation s ensures.1]
    exact ih s b (ensures.2 s b trivial)

/-- A program whose operations are allowed by any knowledge. -/
theorem always {may : ω → Prop} {result : Except ε α → Prop} (ensures : program.Ensures (fun _ => True) may result)
    (allows : ∀ known operation, may operation → W.allows known operation) :
    program.Watched W known (fun _ r => result r) := by
  induction program generalizing known with
  | pure a => exact ensures
  | raise e => exact ensures
  | step operation rest ih => exact ⟨allows _ _ ensures.1,fun s b _ => ih s b (ensures.2 s b trivial)⟩

/-- The step of a watched thread. -/
theorem advance (thread : (Program.language σ ω β ε).Thread) {post : τ → Except ε Unit → Prop}
    (watched : Program.Watched W thread known post) {operation : ω}
    (busy : (Program.language σ ω β ε).operation thread = some operation) :
    W.allows known operation ∧ ∀ s b, W.sees known s →
      Program.Watched W ((Program.language σ ω β ε).next thread s b) (W.after known operation s) post := by
  cases thread with
  | pure => cases busy
  | raise => cases busy
  | step operation next =>
    cases busy
    exact watched

end Watched
end Program

/-- A list that grows at its end is split at its last item, or before. -/
theorem concat_split {A : Type} {items front back : List A} {item mark : A} (split : items ++ [item] = front ++ mark::back) :
    (front = items ∧ mark = item ∧ back = []) ∨ ∃ rest, back = rest ++ [item] ∧ items = front ++ mark::rest := by
  rcases back.eq_nil_or_concat with rfl | ⟨rest,last,rfl⟩
  · obtain ⟨rfl,same⟩ := List.append_inj' split rfl
    exact .inl ⟨rfl,(List.cons.inj same).1.symm,rfl⟩
  · rw [List.concat_eq_append,← List.cons_append,← List.append_assoc] at split
    obtain ⟨rfl,same⟩ := List.append_inj' split rfl
    cases same
    exact .inr ⟨rest,List.concat_eq_append,rfl⟩

section keyed
variable {κ μ ι : Type} {M : Machine σ ω κ μ} {L : Language σ ω β} {code : κ → L.Thread} {ok : Condition σ κ ω β μ}

/-- The keys of threads. -/
def keys (key : κ → ι) (threads : List (κ × L.Thread)) : List ι := threads.map (fun thread => key thread.1)

theorem keys_set {key : κ → ι} {threads : List (κ × L.Thread)} {index : Nat} {origin : κ} {thread : L.Thread}
    (found : threads[index]? = some (origin,thread)) (next : L.Thread) :
    keys key (threads.set index (origin,next)) = keys key threads := by
  obtain ⟨bound,there⟩ := List.getElem?_eq_some_iff.mp found
  have inside : index < (keys key threads).length := by rwa [keys,List.length_map]
  have same : key origin = (keys key threads)[index] := by simp [keys,there]
  rw [keys,List.map_set,same]
  exact List.set_getElem_self _

theorem key_eraseIdx {key : κ → ι} {threads : List (κ × L.Thread)} (apart : (keys key threads).Nodup)
    {index : Nat} {origin : κ} {thread : L.Thread} (found : threads[index]? = some (origin,thread))
    {other : κ × L.Thread} (member : other ∈ threads.eraseIdx index) : key origin ≠ key other.1 := by
  obtain ⟨place,elsewhere,there⟩ := List.mem_eraseIdx_iff_getElem?.mp member
  have first : (keys key threads)[index]? = some (key origin) := by
    rw [keys,List.getElem?_map,found]
    rfl
  have second : (keys key threads)[place]? = some (key other.1) := by
    rw [keys,List.getElem?_map,there]
    rfl
  intro same
  refine elsewhere ((List.getElem?_inj (List.getElem?_eq_some_iff.mp first).1 apart).mp ?_).symm
  rw [first,second,same]

/-- Assertions of threads with different keys. Each is kept by the steps of its own thread, and by
those of a thread with another key that meets its own assertion. -/
theorem Run.keyed (key : κ → ι) (inv : List (κ × ω) → σ → Prop) (holds : List (κ × ω) → σ → κ → L.Thread → Prop)
    (own : ∀ events s origin thread operation answer, inv events s → holds events s origin thread →
      L.operation thread = some operation → inv (events ++ [(origin,operation)]) (M.effect operation s) ∧
        holds (events ++ [(origin,operation)]) (M.effect operation s) origin (L.next thread s answer))
    (others : ∀ events s origin thread operation source other, inv events s → holds events s source other →
      L.operation other = some operation → holds events s origin thread → key source ≠ key origin →
        holds (events ++ [(source,operation)]) (M.effect operation s) origin thread)
    (move : ∀ events (view : View σ κ ω) environment after turn, inv events view.shared → ok view (.move environment) →
      M.react environment view.shared (view.threads.map Prod.fst) = some (after,turn) →
        inv events after ∧ (∀ origin thread, holds events view.shared origin thread → holds events after origin thread) ∧
        ∀ origin, turn = .spawn origin →
          key origin ∉ (view.threads.map Prod.fst).map key ∧ holds events after origin (code origin))
    {first last : System κ L} {events : List (κ × ω)} (run : Run M code ok first events last) (idle : first.threads = [])
    (initial : inv [] first.shared) :
    inv events last.shared ∧ ∀ thread ∈ last.threads, holds events last.shared thread.1 thread.2 := by
  refine (run.recorded (fun events S => (keys key S.threads).Nodup ∧
    inv events S.shared ∧ ∀ thread ∈ S.threads, holds events S.shared thread.1 thread.2) ?_ ?_).2
  · intro events before label after ⟨apart,shared,threads⟩ allowed step
    have moves (environment : μ) (changed : σ) (turn : Turn κ) (same : label = .move environment)
        (reacts : M.react environment before.shared (before.threads.map Prod.fst) = some (changed,turn)) :
        inv events changed ∧ (∀ origin thread, holds events before.shared origin thread → holds events changed origin thread) ∧
        ∀ origin, turn = .spawn origin → key origin ∉ keys key before.threads ∧ holds events changed origin (code origin) := by
      subst same
      have origins : before.view.threads.map Prod.fst = before.threads.map Prod.fst := by
        rw [System.view,List.map_map]
        rfl
      have result := move events before.view environment changed turn shared allowed (origins.symm ▸ reacts)
      rwa [origins,List.map_map] at result
    cases step with
    | advance index answer origin thread operation found busy =>
      have member := List.mem_of_getElem? found
      obtain ⟨kept,follows⟩ := own events before.shared origin thread operation answer shared (threads _ member) busy
      rw [event_advance found busy]
      refine ⟨?_,kept,fun other inside => ?_⟩
      · rw [keys_set found]
        exact apart
      · rcases mem_set_eraseIdx inside with rfl | inside
        · exact follows
        · exact others events before.shared other.1 other.2 operation origin thread shared (threads _ member) busy
            (threads _ (List.mem_of_mem_eraseIdx inside)) (key_eraseIdx apart found inside)
    | close index =>
      refine ⟨apart.sublist ((List.eraseIdx_sublist _ _).map _),?_,fun other inside => ?_⟩
      · simpa [System.event] using shared
      · simpa [System.event] using threads other (List.mem_of_mem_eraseIdx inside)
    | keep environment changed reacts =>
      obtain ⟨kept,stays,_⟩ := moves _ _ _ rfl reacts
      simp only [System.event,List.append_nil]
      exact ⟨apart,kept,fun other inside => stays _ _ (threads other inside)⟩
    | spawn environment changed origin reacts =>
      obtain ⟨kept,stays,starts⟩ := moves _ _ _ rfl reacts
      obtain ⟨fresh,begins⟩ := starts origin rfl
      simp only [System.event,List.append_nil]
      refine ⟨?_,kept,fun other inside => ?_⟩
      · rw [keys,List.map_append]
        exact List.Nodup.append apart (List.nodup_singleton _) (List.disjoint_singleton.mpr fresh)
      · rcases List.mem_append.mp inside with inside | inside
        · exact stays _ _ (threads other inside)
        · cases List.mem_singleton.mp inside
          exact begins
    | drop environment changed index reacts =>
      obtain ⟨kept,stays,_⟩ := moves _ _ _ rfl reacts
      simp only [System.event,List.append_nil]
      exact ⟨apart.sublist ((List.eraseIdx_sublist _ _).map _),kept,
        fun other inside => stays _ _ (threads other (List.mem_of_mem_eraseIdx inside))⟩
  · rw [idle]
    exact ⟨List.nodup_nil,initial,fun _ member => absurd member List.not_mem_nil⟩

end keyed
end Interleave
