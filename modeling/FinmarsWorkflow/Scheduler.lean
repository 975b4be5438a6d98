import Mathlib.Data.List.Chain
import Mathlib.Order.Lattice

/-! The beat scheduler asks every tenant schema when its schedules last changed
and remembers one timestamp for all of them. Times are any linear order. -/
namespace FinmarsWorkflow

/-- The database errors that a query of the scheduler may end in. -/
inductive Trouble where
  | databaseError
  | interfaceError
deriving DecidableEq

/-- What one poll finds in every schema: the time of the last change, the error
that selecting the schema raises and the error that `last_change` raises. -/
structure Poll (σ τ : Type) where
  lastChange : σ → Option τ
  unselectable : σ → Option Trouble
  unreadable : σ → Option Trouble

section polls
variable {σ τ : Type} [LinearOrder τ]

/-- `ts` after one more schema. -/
def later : Option τ → Option τ → Option τ
  | some ts,some change => some (max ts change)
  | none,some change => some change
  | ts,none => ts

/-- The rest of `schedule_changed` from one schema on: what it returns or raises,
and `_last_timestamp` afterwards. -/
def scheduleChangedFrom (poll : Poll σ τ) (last : Option τ) : List σ → Option τ → Except Trouble Bool × Option τ
  | [],ts => (.ok (match ts with
      | some ts => decide (last.getD ts < ts)
      | none => false),ts)
  | schema::rest,ts => match poll.unselectable schema with
    -- raised outside of the `try`
    | some trouble => (.error trouble,last)
    | none => match poll.unreadable schema with
      | some _ => (.ok false,last)
      | none => scheduleChangedFrom poll last rest (later ts (poll.lastChange schema))

def scheduleChanged (schemas : List σ) (poll : Poll σ τ) (last : Option τ) : Except Trouble Bool × Option τ :=
  scheduleChangedFrom poll last schemas none

/-- `_last_timestamp` after some polls of a new scheduler. -/
def lastTimestamp (schemas : List σ) (polls : List (Poll σ τ)) : Option τ :=
  polls.foldl (fun last poll => (scheduleChanged schemas poll last).2) none

/-- No schema raises. -/
def Poll.successful (schemas : List σ) (poll : Poll σ τ) : Bool :=
  schemas.all (fun schema => (poll.unselectable schema).isNone && (poll.unreadable schema).isNone)

def previousSuccess (schemas : List σ) (polls : List (Poll σ τ)) : Option (Poll σ τ) :=
  (polls.filter (Poll.successful schemas)).getLast?

/-- What may happen between two polls: a timestamp is added or moved, to a value
later than all that the first poll could see. -/
def Moved (schemas : List σ) (before after : Poll σ τ) : Prop :=
  ∀ schema ∈ schemas, after.lastChange schema = before.lastChange schema ∨
    ∃ change, after.lastChange schema = some change ∧
      ∀ other ∈ schemas, ∀ seen, before.lastChange other = some seen → seen < change

def Changed (schemas : List σ) (before after : Poll σ τ) : Prop :=
  ∃ schema ∈ schemas, after.lastChange schema ≠ before.lastChange schema

/-- The answer to a poll after some others is the one that schedules need. -/
def Reports (schemas : List σ) (polls : List (Poll σ τ)) (poll : Poll σ τ) : Prop :=
  let answer := scheduleChanged schemas poll (lastTimestamp schemas polls)
  (poll.successful schemas = true → ∀ before, previousSuccess schemas polls = some before →
    (answer.1 = .ok true ↔ Changed schemas before poll)) ∧
  (poll.successful schemas = false → answer = (.ok false,lastTimestamp schemas polls))

/-- Some schema had a schedule at the time of a poll. -/
def Poll.sees (schemas : List σ) (poll : Poll σ τ) : Prop := ∃ schema ∈ schemas, (poll.lastChange schema).isSome

/-- The first error of a poll is raised by `last_change`. -/
def Poll.caught (schemas : List σ) (poll : Poll σ τ) : Prop :=
  ∃ front schema back, schemas = front ++ schema::back ∧ poll.successful front = true ∧
    poll.unselectable schema = none ∧ poll.unreadable schema ≠ none

/-- `ts` after all schemas of a successful poll. -/
def Poll.latest (poll : Poll σ τ) : List σ → Option τ → Option τ
  | [],ts => ts
  | schema::rest,ts => poll.latest rest (later ts (poll.lastChange schema))

omit [LinearOrder τ] in
@[simp] private theorem successful_cons (schema : σ) (rest : List σ) (poll : Poll σ τ) :
    poll.successful (schema::rest) = true ↔
      poll.unselectable schema = none ∧ poll.unreadable schema = none ∧ poll.successful rest = true := by
  simp [Poll.successful,and_assoc]

theorem scheduleChangedFrom_success {poll : Poll σ τ} {schemas : List σ} (fine : poll.successful schemas = true)
    (last ts : Option τ) : scheduleChangedFrom poll last schemas ts =
      scheduleChangedFrom poll last [] (poll.latest schemas ts) := by
  induction schemas generalizing ts with
  | nil => rfl
  | cons schema rest ih =>
    obtain ⟨selected,read,others⟩ := (successful_cons schema rest poll).mp fine
    simp only [scheduleChangedFrom,selected,read,Poll.latest]
    exact ih others _

omit [LinearOrder τ] in
private theorem caught_cons (schema : σ) (rest : List σ) (poll : Poll σ τ) :
    poll.caught (schema::rest) ↔ poll.unselectable schema = none ∧
      (poll.unreadable schema = none → poll.caught rest) := by
  constructor
  · intro caught
    obtain ⟨front,found,back,shape,fine,selected,unread⟩ := caught
    cases front with
    | nil =>
      obtain ⟨rfl,rfl⟩ := List.cons.inj shape
      exact ⟨selected,fun read => absurd read unread⟩
    | cons first front =>
      obtain ⟨rfl,rfl⟩ := List.cons.inj shape
      obtain ⟨chosen,_,others⟩ := (successful_cons _ _ _).mp fine
      exact ⟨chosen,fun _ => ⟨front,found,back,rfl,others,selected,unread⟩⟩
  · intro holds
    obtain ⟨selected,next⟩ := holds
    by_cases read : poll.unreadable schema = none
    · obtain ⟨front,found,back,rfl,fine,chosen,unread⟩ := next read
      exact ⟨schema::front,found,back,rfl,(successful_cons _ _ _).mpr ⟨selected,read,fine⟩,chosen,unread⟩
    · exact ⟨[],schema,rest,rfl,rfl,selected,read⟩

/-- A poll that meets an error leaves the remembered timestamp alone, and returns
`False` exactly when that error is caught. -/
theorem scheduleChangedFrom_failure {poll : Poll σ τ} {schemas : List σ} (failed : poll.successful schemas = false)
    (last ts : Option τ) : (scheduleChangedFrom poll last schemas ts).2 = last ∧
      ((scheduleChangedFrom poll last schemas ts).1 = .ok false ↔ poll.caught schemas) := by
  induction schemas generalizing ts with
  | nil => cases failed
  | cons schema rest ih =>
    rw [caught_cons]
    unfold scheduleChangedFrom
    cases selected : poll.unselectable schema with
    | some trouble => simp
    | none =>
      cases read : poll.unreadable schema with
      | some trouble => simp
      | none =>
        have others : poll.successful rest = false := by
          simpa [Poll.successful,selected,read] using failed
        simpa using ih others (later ts (poll.lastChange schema))

private theorem later_some (ts : Option τ) (change : τ) : ∃ next, later ts (some change) = some next ∧ change ≤ next ∧
    ∀ old, ts = some old → old ≤ next := by
  cases ts with
  | none => exact ⟨change,rfl,le_rfl,fun _ same => by cases same⟩
  | some ts =>
    refine ⟨max ts change,rfl,le_max_right ts change,fun old same => ?_⟩
    cases same
    exact le_max_left ts change

theorem latest_grows (poll : Poll σ τ) (schemas : List σ) (ts : τ) :
    ∃ last, poll.latest schemas (some ts) = some last ∧ ts ≤ last := by
  induction schemas generalizing ts with
  | nil => exact ⟨ts,rfl,le_rfl⟩
  | cons schema rest ih =>
    unfold Poll.latest
    cases poll.lastChange schema with
    | none => exact ih ts
    | some change =>
      obtain ⟨last,reached,more⟩ := ih (max ts change)
      exact ⟨last,reached,(le_max_left ts change).trans more⟩

/-- No change is later than the timestamp of a poll. -/
theorem latest_bound {poll : Poll σ τ} {schemas : List σ} {schema : σ} {change : τ} (member : schema ∈ schemas)
    (changed : poll.lastChange schema = some change) (ts : Option τ) :
    ∃ last, poll.latest schemas ts = some last ∧ change ≤ last := by
  induction schemas generalizing ts with
  | nil => cases member
  | cons first rest ih =>
    unfold Poll.latest
    rcases List.mem_cons.mp member with rfl | inside
    · obtain ⟨next,same,more,_⟩ := later_some ts change
      obtain ⟨last,reached,most⟩ := latest_grows poll rest next
      rw [changed,same]
      exact ⟨last,reached,more.trans most⟩
    · exact ih inside _

/-- The timestamp of a poll is the last change of one of the schemas. -/
theorem latest_source {poll : Poll σ τ} {schemas : List σ} {ts : Option τ} {last : τ}
    (reached : poll.latest schemas ts = some last) :
    ts = some last ∨ ∃ schema ∈ schemas, poll.lastChange schema = some last := by
  induction schemas generalizing ts with
  | nil => exact .inl reached
  | cons first rest ih =>
    rcases ih reached with same | ⟨schema,member,changed⟩
    · cases change : poll.lastChange first with
      | none =>
        rw [change] at same
        cases ts with
        | none => cases same
        | some old => exact .inl same
      | some value =>
        rw [change] at same
        cases ts with
        | none => exact .inr ⟨first,List.mem_cons_self,change.trans same⟩
        | some old =>
          rcases le_total old value with less | less
          · refine .inr ⟨first,List.mem_cons_self,?_⟩
            simpa [later,max_eq_right less,change] using same
          · refine .inl ?_
            simpa [later,max_eq_left less] using same
    · exact .inr ⟨schema,List.mem_cons_of_mem _ member,changed⟩

theorem latest_none_iff {poll : Poll σ τ} {schemas : List σ} :
    poll.latest schemas none = none ↔ ¬ poll.sees schemas := by
  constructor
  · intro nothing seen
    obtain ⟨schema,member,some⟩ := seen
    obtain ⟨change,changed⟩ := Option.isSome_iff_exists.mp some
    obtain ⟨last,reached,_⟩ := latest_bound member changed none
    rw [nothing] at reached
    cases reached
  · intro blind
    cases reached : poll.latest schemas none with
    | none => rfl
    | some last =>
      rcases latest_source reached with same | ⟨schema,member,changed⟩
      · cases same
      · exact absurd ⟨schema,member,by simp [changed]⟩ blind

private theorem latest_congr {before after : Poll σ τ} {schemas : List σ}
    (same : ∀ schema ∈ schemas, after.lastChange schema = before.lastChange schema) (ts : Option τ) :
    after.latest schemas ts = before.latest schemas ts := by
  induction schemas generalizing ts with
  | nil => rfl
  | cons schema rest ih =>
    unfold Poll.latest
    rw [same schema List.mem_cons_self]
    exact ih (fun other member => same other (List.mem_cons_of_mem _ member)) _

theorem Moved.trans {schemas : List σ} {first second third : Poll σ τ} (front : Moved schemas first second)
    (back : Moved schemas second third) : Moved schemas first third := by
  intro schema member
  rcases back schema member with same | ⟨change,changed,above⟩
  · rw [same]
    exact front schema member
  · refine .inr ⟨change,changed,fun other there seen before => ?_⟩
    rcases front other there with same | ⟨middle,moved,beyond⟩
    · exact above other there seen (same.trans before)
    · exact (beyond other there seen before).trans (above other there middle moved)

/-- A move raises the timestamp of all schemas exactly when it changes one, if
there was a timestamp to raise. -/
theorem moved_later_iff {schemas : List σ} {before after : Poll σ τ} (moved : Moved schemas before after) {old : τ}
    (remembered : before.latest schemas none = some old) :
    (∃ ts, after.latest schemas none = some ts ∧ old < ts) ↔ Changed schemas before after := by
  constructor
  · intro raised
    obtain ⟨ts,reached,more⟩ := raised
    by_contra still
    have same : ∀ schema ∈ schemas, after.lastChange schema = before.lastChange schema := fun schema member =>
      by_contra fun moved => still ⟨schema,member,moved⟩
    rw [latest_congr same,remembered] at reached
    cases reached
    exact lt_irrefl _ more
  · intro changed
    obtain ⟨schema,member,different⟩ := changed
    rcases moved schema member with same | ⟨change,now,above⟩
    · exact absurd same different
    · obtain ⟨ts,reached,more⟩ := latest_bound member now none
      refine ⟨ts,reached,lt_of_lt_of_le ?_ more⟩
      rcases latest_source remembered with none | ⟨other,there,seen⟩
      · cases none
      · exact above other there old seen

/-- What a scheduler remembers is what its last successful poll has seen. -/
theorem lastTimestamp_eq (schemas : List σ) (polls : List (Poll σ τ)) :
    lastTimestamp schemas polls = (previousSuccess schemas polls).bind (fun poll => poll.latest schemas none) := by
  induction polls using List.reverseRecOn with
  | nil => rfl
  | append_singleton front poll ih =>
    unfold lastTimestamp at ih ⊢
    rw [List.foldl_append,ih,List.foldl_cons,List.foldl_nil]
    unfold previousSuccess scheduleChanged
    cases fine : poll.successful schemas with
    | true =>
      rw [scheduleChangedFrom_success fine]
      simp [fine,scheduleChangedFrom]
    | false =>
      rw [(scheduleChangedFrom_failure fine _ _).1]
      simp [fine]

/-- The last successful poll has seen a schedule or nothing has changed since, and
the first error, if there is one, is raised by `last_change`. -/
def Answerable (schemas : List σ) (polls : List (Poll σ τ)) (poll : Poll σ τ) : Prop :=
  (poll.successful schemas = true → ∀ before, previousSuccess schemas polls = some before →
    before.sees schemas ∨ ¬ Changed schemas before poll) ∧
  (poll.successful schemas = false → poll.caught schemas)

private theorem success_answer {schemas : List σ} {poll : Poll σ τ} (fine : poll.successful schemas = true)
    (last : Option τ) : (scheduleChanged schemas poll last).1 = .ok true ↔
      ∃ ts, poll.latest schemas none = some ts ∧ last.getD ts < ts := by
  unfold scheduleChanged
  rw [scheduleChangedFrom_success fine]
  cases reached : poll.latest schemas none <;> simp [scheduleChangedFrom]

/-- In every sequence of polls, the answer to a poll is right exactly when the
poll can be answered by one remembered timestamp. -/
theorem reports_iff (schemas : List σ) (polls : List (Poll σ τ)) (poll : Poll σ τ)
    (chain : (polls ++ [poll]).IsChain (Moved schemas)) :
    Reports schemas polls poll ↔ Answerable schemas polls poll := by
  have moves : ∀ before, previousSuccess schemas polls = some before → Moved schemas before poll := by
    intro before found
    have trans : IsTrans (Poll σ τ) (Moved schemas) := ⟨fun _ _ _ => Moved.trans⟩
    have pairs := List.pairwise_append.mp (List.isChain_iff_pairwise.mp chain)
    have member : before ∈ polls := List.mem_of_mem_filter (List.mem_of_getLast? found)
    exact pairs.2.2 before member poll (List.mem_singleton.mpr rfl)
  unfold Reports Answerable
  apply and_congr
  · apply forall_congr'
    intro fine
    apply forall_congr'
    intro before
    apply forall_congr'
    intro found
    have remembered := lastTimestamp_eq schemas polls
    rw [found,Option.bind_some] at remembered
    rw [success_answer fine,remembered]
    cases old : before.latest schemas none with
    | none =>
      have blind := latest_none_iff.mp old
      simp [blind]
    | some ts =>
      have seen : before.sees schemas := by
        by_contra blind
        rw [latest_none_iff.mpr blind] at old
        cases old
      simpa [seen] using moved_later_iff (moves before found) old
  · apply forall_congr'
    intro failed
    have left := scheduleChangedFrom_failure failed (lastTimestamp schemas polls) none
    rw [← left.2]
    exact Prod.ext_iff.trans (and_iff_left left.1)

end polls

/-- One schema without any schedule, and the same schema with its first one. -/
def unscheduled : Poll Unit Nat := ⟨fun _ => none,fun _ => none,fun _ => none⟩

def scheduled (ts : Nat) : Poll Unit Nat := ⟨fun _ => some ts,fun _ => none,fun _ => none⟩

/-- The first schedule of an installation is never announced. -/
theorem first_schedule_missed : [unscheduled,scheduled 1].IsChain (Moved [()]) ∧
    ¬ ((scheduleChanged [()] (scheduled 1) (lastTimestamp [()] [unscheduled])).1 = .ok true ↔
      Changed [()] unscheduled (scheduled 1)) := by
  constructor
  · simp [Moved,unscheduled,scheduled]
  · have changed : Changed [()] unscheduled (scheduled 1) := ⟨(),by simp,by simp [scheduled,unscheduled]⟩
    have answer : (scheduleChanged [()] (scheduled 1) (lastTimestamp [()] [unscheduled])).1 = .ok false := rfl
    rw [answer]
    intro same
    cases same.mpr changed

/-- Two schemas, the second of which may have no schedule, or raise. -/
def twoSchemas (first second : Option Nat) (trouble : Option Trouble) : Poll Bool Nat :=
  ⟨fun other => if other then second else first,fun _ => none,fun other => if other then trouble else none⟩

def pollsBefore : List (Poll Bool Nat) := [twoSchemas (some 1) none none,twoSchemas (some 1) (some 2) (some .databaseError)]

/-- The first schedule of the second schema is announced by the poll after the one that failed. -/
theorem second_schema_reported : Reports [false,true] pollsBefore (twoSchemas (some 1) (some 2) none) := by
  refine (reports_iff [false,true] pollsBefore _ (by simp [pollsBefore,Moved,twoSchemas])).mpr
    ⟨fun _ before found => .inl ?_,fun failed => by cases failed⟩
  cases found
  exact ⟨false,by decide,rfl⟩

end FinmarsWorkflow
