import FinmarsWorkflow.Family

/-! A family of workflows on which only excused threads act.
No message of it is queued or about to be sent, and every thread that has to do
with it is done or excused. Such a family changes by steps of excused threads
only; where it is finished and these have left it, it stays as it is for ever. -/
namespace FinmarsWorkflow
open Interleave Relation

/-- A thread that has to do with a workflow or one of its descendants. -/
def Origin.Engages (db : Db) (workflow : WorkflowId) (origin : Origin) : Prop :=
  ∃ child, origin.Acts db child ∧ db.Above child workflow

theorem engages_mono {db later : Db} {workflow : WorkflowId} {origin : Origin}
    (family : ∀ child, later.Above child workflow → db.Above child workflow)
    (engages : origin.Engages later workflow) : origin.Engages db workflow := by
  obtain ⟨child,acts,below⟩ := engages
  match origin with
  | .message message => exact ⟨message.workflow,.refl,family _ (ReflTransGen.trans acts below)⟩
  | .request request => exact ⟨child,acts,family _ below⟩

structure Calm {definitions : Definitions} (excused : Db → Origin → Control → Prop) (S : Controlled definitions)
    (workflow : WorkflowId) : Prop where
  known : (S.shared.workflowKey workflow).isSome
  queue : ∀ message ∈ S.shared.queue, ¬S.shared.Above message.workflow workflow
  outbox : ∀ thread ∈ S.threads, ∀ message ∈ Control.outbox thread.2, ¬S.shared.Above message.workflow workflow
  threads : ∀ thread ∈ S.threads, thread.1.Engages S.shared workflow →
    Control.operation thread.2 = none ∨ excused S.shared thread.1 thread.2

/-- The rows of a workflow and its descendants are the same in both states. -/
structure Kept (workflow : WorkflowId) (db later : Db) : Prop where
  family : ∀ child, db.Above child workflow ↔ later.Above child workflow
  workflows : ∀ child row, db.Above child workflow → db.workflows[child]? = some row →
    later.workflows[child]? = some row
  tasks : ∀ (id : TaskId) (task : Task), db.Above task.workflow workflow → later.tasks[id]? = some task →
    db.tasks[id]? = some task

namespace Kept
variable {workflow : WorkflowId} {db later last : Db}

theorem refl (workflow : WorkflowId) (db : Db) : Kept workflow db db :=
  ⟨fun _ => Iff.rfl,fun _ _ _ stored => stored,fun _ _ _ stored => stored⟩

theorem requeued (workflow : WorkflowId) (db : Db) (queue : List Message) : Kept workflow db {db with queue := queue} :=
  ⟨fun _ => Iff.rfl,fun _ _ _ stored => stored,fun _ _ _ stored => stored⟩

theorem trans (first : Kept workflow db later) (second : Kept workflow later last) : Kept workflow db last :=
  ⟨fun child => (first.family child).trans (second.family child),
    fun child row below stored =>
      second.workflows child row ((first.family child).mp below) (first.workflows child row below stored),
    fun id task below stored => first.tasks id task below (second.tasks id task ((first.family _).mp below) stored)⟩

end Kept

/-- An operation that changes no row of the family and adds none. -/
theorem kept_effect {db : Db} {operation : Operation} {workflow : WorkflowId}
    (family : ∀ child, db.Above child workflow ↔ (operation.effect db).Above child workflow)
    (untouched : ∀ child, operation.site = some child → ¬db.Above child workflow) :
    Kept workflow db (operation.effect db) := by
  refine ⟨family,fun child row below stored => ?_,fun id task below stored => ?_⟩
  · cases operation with
    | saveWorkflow id saved =>
      have differs : id ≠ child := by
        rintro rfl
        exact untouched id rfl below
      exact (List.getElem?_set_ne differs).trans stored
    | createWorkflow created => exact List.getElem?_append_left (List.getElem?_eq_some_iff.mp stored).1 ▸ stored
    | _ => exact stored
  · cases operation with
    | saveTask other saved =>
      simp only [Operation.effect,List.getElem?_set] at stored
      split at stored
      next same =>
        split at stored
        · cases stored
          exact absurd below (untouched _ rfl)
        · cases stored
      next => exact stored
    | createTask created =>
      simp only [Operation.effect,List.getElem?_append] at stored
      split at stored
      · exact stored
      · cases List.mem_singleton.mp (List.mem_of_getElem? stored)
        exact absurd below (untouched _ rfl)
    | _ => exact stored

section calm
variable {definitions : Definitions} {before after : Controlled definitions} {label : Action} {workflow : WorkflowId}
  {excused : Db → Origin → Control → Prop}

/-- A message of the workflow or a descendant is handed out once more. -/
def Repeats (workflow : WorkflowId) (S : Controlled definitions) (label : Action) : Prop :=
  ∃ index message, (label = .move (.redeliver index) ∨ label = .move (.lose index)) ∧
    (S.threads.map Prod.fst)[index]? = some (.message message) ∧ S.shared.Above message.workflow workflow

/-- What a step of an excused thread has to meet. -/
def Careful (excused : Db → Origin → Control → Prop) (workflow : WorkflowId) (S : Controlled definitions) : Prop :=
  ∀ origin control operation answer, (origin,control) ∈ S.threads → origin.Engages S.shared workflow →
    excused S.shared origin control → control.operation = some operation → (∀ row, operation ≠ .createWorkflow row) ∧
      (∀ message ∈ (control.next definitions S.shared answer).outbox, ¬S.shared.Above message.workflow workflow) ∧
      ((control.next definitions S.shared answer).operation = none ∨
        excused (operation.effect S.shared) origin (control.next definitions S.shared answer))

theorem site_engages {origin : Origin} {control : Control} {operation : Operation} (sound : Sound before)
    (member : (origin,control) ∈ before.threads) (busy : control.operation = some operation) {child : WorkflowId}
    (site : operation.site = some child) (below : before.shared.Above child workflow) :
    origin.Engages before.shared workflow :=
  ⟨child,site_acts sound.shared (sound.threads _ member).2 busy site,below⟩

section advance
variable {origin : Origin} {control : Control} {operation : Operation} (sound : Sound before)
  (calm : Calm excused before workflow) (careful : Careful excused workflow before)
  (member : (origin,control) ∈ before.threads) (busy : control.operation = some operation)
include calm member busy

theorem calm_engaged (engaged : origin.Engages before.shared workflow) : excused before.shared origin control := by
  rcases calm.threads _ member engaged with idle | excused
  · cases idle.symm.trans busy
  · exact excused

include sound careful

theorem calm_above (child : WorkflowId) :
    before.shared.Above child workflow ↔ (operation.effect before.shared).Above child workflow := by
  have linked := (sound.threads _ member).2
  have keyed := linked_keyed linked busy
  refine ⟨(keyed_grows keyed).above,fun below => ?_⟩
  rcases above_effect keyed (consistent_effect sound.shared linked busy) below with
    old | ⟨fresh,row,rfl,same | ⟨parent,up,above⟩⟩
  · exact old
  · obtain ⟨key,stored⟩ := Option.isSome_iff_exists.mp calm.known
    exact absurd (workflowKey_lt stored) (by rw [same,fresh]; exact Nat.lt_irrefl _)
  · have engaged := site_engages sound member busy up above
    exact absurd rfl ((careful _ _ _ (.returns .null) member engaged (calm_engaged calm member busy engaged) busy).1 row)

theorem calm_outbox {outside : Outside} {message : Message}
    (sent : message ∈ (control.next definitions before.shared outside).outbox) :
    ¬before.shared.Above message.workflow workflow := by
  intro below
  have linked := (sound.threads _ member).2
  rcases outbox_next linked busy sent with held | ⟨acts,_⟩ | ⟨fresh,_⟩
  · exact calm.outbox _ member message held below
  · have engaged : origin.Engages before.shared workflow := ⟨_,acts,below⟩
    exact (careful _ _ _ outside member engaged (calm_engaged calm member busy engaged) busy).2.1 message sent below
  · obtain ⟨key,stored⟩ := Option.isSome_iff_exists.mp calm.known
    rcases ReflTransGen.cases_head below with same | ⟨parent,⟨up,found,_⟩,_⟩
    · exact absurd (workflowKey_lt stored) (by rw [← same,fresh]; exact Nat.lt_irrefl _)
    · exact absurd (workflowKey_lt found) (by rw [fresh]; exact Nat.lt_irrefl _)

end advance

/-- An excused thread is the one that takes the step. -/
def ByExcused (excused : Db → Origin → Control → Prop) (before after : Controlled definitions) (label : Action) : Prop :=
  ∃ index answer origin control operation, label = .advance index answer ∧
    before.threads[index]? = some (origin,control) ∧ control.operation = some operation ∧
    excused before.shared origin control ∧ after.shared = operation.effect before.shared

/-- The descendants stay the same, and only the steps of excused threads change rows of the family. -/
theorem calm_changes (sound : Sound before) (calm : Calm excused before workflow)
    (careful : Careful excused workflow before) (step : Step machine Origin.control before label after) :
    (∀ child, before.shared.Above child workflow ↔ after.shared.Above child workflow) ∧
      (ByExcused excused before after label ∨ Kept workflow before.shared after.shared) := by
  cases step with
  | advance index answer origin control operation found busy =>
    have member := List.mem_of_getElem? found
    have family := calm_above sound calm careful member busy
    refine ⟨family,?_⟩
    by_cases touched : ∃ child, operation.site = some child ∧ before.shared.Above child workflow
    · obtain ⟨child,site,below⟩ := touched
      have excuse := calm_engaged calm member busy (site_engages sound member busy site below)
      exact .inl ⟨index,answer,origin,control,operation,rfl,found,busy,excuse,rfl⟩
    · exact .inr (kept_effect family (fun child site below => touched ⟨child,site,below⟩))
  | close => exact ⟨fun _ => Iff.rfl,.inr (.refl _ _)⟩
  | keep environment changed reacts | spawn environment changed origin reacts | drop environment changed index reacts =>
    obtain ⟨queue,rfl,_⟩ := react_queue reacts
    exact ⟨fun _ => Iff.rfl,.inr (.requeued _ _ _)⟩

/-- A calm family stays calm. -/
theorem calm_step (sound : Sound before) (calm : Calm excused before workflow)
    (careful : Careful excused workflow before) (once : ¬Repeats workflow before label)
    (stable : ∀ origin control, (origin,control) ∈ before.threads → excused before.shared origin control →
      excused after.shared origin control)
    (asked : ∀ request, label = .move (.request request) → (Origin.request request).Engages before.shared workflow →
      excused before.shared (.request request) (Origin.request request).control)
    (step : Step machine Origin.control before label after) : Calm excused after workflow := by
  have family := (calm_changes sound calm careful step).1
  have known := (sound_step sound step).2.known calm.known
  have engages (origin : Origin) (engaged : origin.Engages after.shared workflow) :
      origin.Engages before.shared workflow := engages_mono (fun child => (family child).mpr) engaged
  cases step with
  | advance index answer origin control operation found busy =>
    have member := List.mem_of_getElem? found
    refine ⟨known,fun message queued below => ?_,fun thread inside message sent below => ?_,fun thread inside engaged => ?_⟩
    · have old := (family _).mpr below
      cases operation with
      | send sent =>
        rcases List.mem_append.mp queued with inside | inside
        · exact calm.queue message inside old
        · cases List.mem_singleton.mp inside
          exact calm.outbox _ member message (send_outbox busy) old
      | _ => exact calm.queue message queued old
    · have old := (family _).mpr below
      rcases List.mem_or_eq_of_mem_set inside with others | rfl
      · exact calm.outbox _ others message sent old
      · exact calm_outbox sound calm careful member busy sent old
    · have old := engages _ engaged
      rcases List.mem_or_eq_of_mem_set inside with others | rfl
      · exact (calm.threads _ others old).imp_right (stable _ _ others)
      · rcases calm.threads _ member old with idle | excuse
        · cases idle.symm.trans busy
        · exact (careful _ _ _ answer member old excuse busy).2.2
  | close =>
    exact ⟨known,calm.queue,fun thread inside => calm.outbox _ (List.mem_of_mem_eraseIdx inside),
      fun thread inside => calm.threads _ (List.mem_of_mem_eraseIdx inside)⟩
  | keep environment changed reacts =>
    rcases react_inv reacts with ⟨_,_,_,_,_,⟨⟩⟩ | ⟨_,_,_,⟨⟩⟩ | ⟨index,message,again,found,rfl,_⟩ | ⟨_,_,_,_,_,⟨⟩⟩ |
      ⟨_,_,_,_,_,⟨⟩⟩
    refine ⟨known,fun other queued => ?_,calm.outbox,fun thread inside engaged =>
      (calm.threads _ inside engaged).imp_right (stable _ _ inside)⟩
    rcases List.mem_append.mp queued with inside | inside
    · exact calm.queue other inside
    · cases List.mem_singleton.mp inside
      exact fun below => once ⟨index,message,.inl (again ▸ rfl),found,below⟩
  | spawn environment changed origin reacts =>
    refine ⟨known,?_,fun thread inside => ?_,fun thread inside engaged => ?_⟩
    · rcases react_inv reacts with ⟨index,message,_,_,rfl,_⟩ | ⟨_,_,rfl,_⟩ | ⟨_,_,_,_,_,⟨⟩⟩ | ⟨_,_,_,_,_,⟨⟩⟩ | ⟨_,_,_,_,_,⟨⟩⟩
      · exact fun other queued => calm.queue other (List.mem_of_mem_eraseIdx queued)
      · exact calm.queue
    · obtain ⟨queue,rfl,_⟩ := react_queue reacts
      rcases List.mem_append.mp inside with others | new
      · exact calm.outbox _ others
      · cases List.mem_singleton.mp new
        exact fun message sent => absurd (origin_outbox origin ▸ sent) List.not_mem_nil
    · rcases List.mem_append.mp inside with others | new
      · exact (calm.threads _ others (engages _ engaged)).imp_right (stable _ _ others)
      · cases List.mem_singleton.mp new
        rcases react_inv reacts with ⟨index,message,_,found,rfl,⟨⟩⟩ | ⟨request,same,rfl,⟨⟩⟩ | ⟨_,_,_,_,_,⟨⟩⟩ | ⟨_,_,_,_,_,⟨⟩⟩ |
          ⟨_,_,_,_,_,⟨⟩⟩
        · obtain ⟨child,acts,below⟩ := engaged
          exact absurd (ReflTransGen.trans acts below) (calm.queue message (List.mem_of_getElem? found))
        · exact .inr (asked request (same ▸ rfl) engaged)
  | drop environment changed index reacts =>
    have outbox : ∀ thread ∈ before.threads.eraseIdx index, ∀ message ∈ Control.outbox thread.2,
        ¬before.shared.Above message.workflow workflow :=
      fun thread inside => calm.outbox _ (List.mem_of_mem_eraseIdx inside)
    rcases react_inv reacts with ⟨_,_,_,_,_,⟨⟩⟩ | ⟨_,_,_,⟨⟩⟩ | ⟨_,_,_,_,_,⟨⟩⟩ | ⟨_,message,again,found,rfl,⟨⟩⟩ |
      ⟨_,request,again,found,rfl,⟨⟩⟩
    · refine ⟨known,fun other queued => ?_,outbox,fun thread inside engaged => ?_⟩
      · rcases List.mem_append.mp queued with inside | inside
        · exact calm.queue other inside
        · cases List.mem_singleton.mp inside
          exact fun below => once ⟨index,message,.inr (again ▸ rfl),found,below⟩
      · have old := List.mem_of_mem_eraseIdx inside
        exact (calm.threads _ old engaged).imp_right (stable _ _ old)
    · refine ⟨known,calm.queue,outbox,fun thread inside engaged => ?_⟩
      have old := List.mem_of_mem_eraseIdx inside
      exact (calm.threads _ old engaged).imp_right (stable _ _ old)

end calm

/-- A worker that failed the workflow and is past it. -/
def Control.Left (workflow : WorkflowId) : Control → Prop
  | .failParent _ _ task _ => task.workflow ≤ workflow
  | .failClimb _ child _ _ _ => child ≤ workflow
  | .failRow _ _ task _ | .failSave _ _ task _ _ | .failClose _ _ task _ _ | .failReload _ _ task _ =>
    task.workflow < workflow
  | _ => False

/-- A request that has read nothing yet. -/
def Control.asking : Control → Bool
  | .pauseRead _ | .resumeRead _ _ | .cancelRead _ => true
  | _ => false

def Gone (workflow : WorkflowId) (_ : Db) : Origin → Control → Prop
  | .message _,control => control.Left workflow
  | .request _,control => control.asking = true

/-- A finished family that all threads have left. -/
structure Quiet {definitions : Definitions} (S : Controlled definitions) (workflow : WorkflowId) : Prop where
  calm : Calm (Gone workflow) S workflow
  rows : ∀ child, S.shared.Above child workflow →
    ∃ row, S.shared.workflows[child]? = some row ∧ row.status.terminal = true

section quiet
variable {definitions : Definitions} {before after : Controlled definitions} {label : Action} {workflow : WorkflowId}
  {origin : Origin} {control : Control} {operation : Operation}

theorem left_site (left : control.Left workflow) (busy : control.operation = some operation)
    {site : WorkflowId} (changes : operation.site = some site) : site < workflow := by
  cases control with
  | failSave | failClose =>
    cases busy
    cases changes
    exact left
  | failRow | failParent | failClimb | failReload =>
    cases busy
    cases changes
  | _ => cases left

theorem left_outbox (left : control.Left workflow) : control.outbox = [] := by
  cases control with
  | failRow | failSave | failClose | failParent | failClimb | failReload => rfl
  | _ => cases left

theorem left_creates {row : Workflow} (left : control.Left workflow) :
    control.operation ≠ some (.createWorkflow row) := by
  intro busy
  rcases createWorkflow_inv busy with ⟨_,_,_,rfl⟩ | rfl <;> cases left

/-- A worker past the workflow climbs on, or ends. -/
theorem left_next (outside : Outside) (sound : Sound before) (member : (origin,control) ∈ before.threads)
    (left : control.Left workflow) :
    control.next definitions before.shared outside = .done ∨
      (control.next definitions before.shared outside).Left workflow := by
  have linked := (sound.threads _ member).2
  cases control with
  | failRow | failSave | failParent =>
    simp only [Control.next]
    repeat' split
    all_goals first | exact .inl rfl | exact .inr left
  | failClose => exact .inr (Nat.le_of_lt left)
  | failClimb depth child parent row error =>
    simp only [Control.next]
    split
    next id task found =>
      obtain ⟨_,owner,_⟩ := parentTask_key found
      have lower := sound.shared.parent child row.key parent linked.2.stored linked.2.delegated
      exact .inr (Nat.lt_of_le_of_lt (Nat.le_of_eq owner) (Nat.lt_of_lt_of_le lower left))
    next => exact .inl rfl
  | failReload depth id task error =>
    simp only [Control.next]
    split
    next other row found =>
      obtain ⟨stored,celery⟩ := taskByCeleryId_key found
      have same := sound.shared.unique other id row.key task.key stored linked.stored celery
      subst other
      have key : row.key = task.key := Option.some.inj (stored.symm.trans linked.stored)
      have owner : row.workflow = task.workflow := congrArg TaskKey.workflow key
      exact Control.failing_elim (P := fun point => point = .done ∨ point.Left workflow) (.inl rfl)
        (fun _ _ => .inr (Nat.lt_of_le_of_lt (Nat.le_of_eq owner) left))
    next => exact .inl rfl
  | _ => cases left

/-- A request about a finished workflow does nothing. -/
theorem asking_next {outside : Outside} {request : Request} {child : WorkflowId} {row : Workflow}
    (linked : control.Linked before.shared (.request request)) (asks : request.asks = some child)
    (asking : control.asking = true) (stored : before.shared.workflows[child]? = some row)
    (terminal : row.status.terminal = true) : control.next definitions before.shared outside = .done := by
  have found : before.shared.getWorkflow child = .ok row := by simp only [Db.getWorkflow,stored]
  cases control with
  | pauseRead asked =>
    cases linked
    cases asks
    simp only [Control.next,found]
    refine if_neg (fun progress => ?_)
    rw [progress] at terminal
    cases terminal
  | resumeRead asked payload =>
    cases linked
    cases asks
    simp only [Control.next,found]
    refine if_neg (fun waits => ?_)
    rw [waits] at terminal
    cases terminal
  | cancelRead asked =>
    cases linked
    cases asks
    simp only [Control.next,found]
    exact if_pos terminal
  | _ => cases asking

theorem quiet_careful (sound : Sound before) (quiet : Quiet before workflow) :
    Careful (Gone workflow) workflow before := by
  rintro origin control operation answer member ⟨child,acts,below⟩ gone busy
  match origin with
  | .message message =>
    refine ⟨fun row made => left_creates gone (made ▸ busy),?_,?_⟩
    · rcases left_next answer sound member gone with done | left
      · rw [done]
        exact fun _ sent => absurd sent List.not_mem_nil
      · rw [left_outbox left]
        exact fun _ sent => absurd sent List.not_mem_nil
    · exact (left_next answer sound member gone).imp_left (fun done => by rw [done]; rfl)
  | .request request =>
    obtain ⟨row,stored,terminal⟩ := quiet.rows child below
    rw [asking_next (sound.threads _ member).2 acts gone stored terminal]
    refine ⟨?_,fun _ sent => absurd sent List.not_mem_nil,.inl rfl⟩
    cases control with
    | pauseRead | resumeRead | cancelRead =>
      cases busy
      rintro row ⟨⟩
    | _ => cases gone

/-- A finished family that all threads have left stays as it is. -/
theorem quiet_step (sound : Sound before) (quiet : Quiet before workflow) (once : ¬Repeats workflow before label)
    (step : Step machine Origin.control before label after) :
    Quiet after workflow ∧ Kept workflow before.shared after.shared := by
  have careful := quiet_careful sound quiet
  obtain ⟨family,changes⟩ := calm_changes sound quiet.calm careful step
  have calm := calm_step sound quiet.calm careful once
    (fun origin control _ gone => by cases origin <;> exact gone)
    (fun request _ ⟨child,acts,_⟩ => by cases request <;> first | exact rfl | cases acts) step
  have kept : Kept workflow before.shared after.shared := by
    rcases changes with ⟨index,answer,origin,control,operation,_,found,busy,gone,same⟩ | kept
    · rw [same] at family ⊢
      refine kept_effect family (fun child site below => ?_)
      match origin with
      | .message message =>
        exact absurd (above_le sound.shared below) (Nat.not_le.mpr (left_site gone busy site))
      | .request request => cases control with
        | pauseRead | resumeRead | cancelRead =>
          cases busy
          cases site
        | _ => cases gone
    · exact kept
  refine ⟨⟨calm,fun child below => ?_⟩,kept⟩
  have old := (family child).mpr below
  obtain ⟨row,stored,terminal⟩ := quiet.rows child old
  exact ⟨row,kept.workflows child row old stored,terminal⟩

end quiet

/-- A thread that has to do with the family, as far as can be seen: by its message,
its request, or the message it sends next. -/
def engaged (db : Db) (workflow : WorkflowId) (thread : Origin × Option Operation) : Bool :=
  (match thread.1 with
    | .message message => db.within workflow message.workflow
    | .request request => thread.2.isSome && request.asks.any (db.within workflow)) ||
  match thread.2 with
    | some (.send message) => db.within workflow message.workflow
    | _ => false

/-- Nothing of the family is queued or at work, and all descendants have finished. -/
def deserted (db : Db) (threads : List (Origin × Option Operation)) (workflow : WorkflowId) : Bool :=
  db.queue.all (fun message => !db.within workflow message.workflow) &&
  threads.all (fun thread => !engaged db workflow thread) &&
  db.workflows.zipIdx.all (fun entry =>
    entry.2 == workflow || !db.within workflow entry.2 || entry.1.status.terminal)

section seen
variable {db : Db} {workflow : WorkflowId} {origin : Origin} {control : Control}

theorem without_above (consistent : Consistent db) {child : WorkflowId} (without : db.within workflow child = false) :
    ¬db.Above child workflow :=
  fun below => Bool.false_ne_true (without.symm.trans (above_within consistent below))

theorem unengaged (consistent : Consistent db) (linked : control.Linked db origin)
    (lone : ∀ first ∈ control.outbox, ∀ second ∈ control.outbox,
      (first.opens = true ∨ ∃ request, origin = .request request ∧ request.asks = none) → first = second)
    (free : engaged db workflow (origin,control.operation) = false) :
    (∀ message ∈ control.outbox, ¬db.Above message.workflow workflow) ∧
      (origin.Engages db workflow → control.operation = none) ∧
      ∀ message, origin = .message message → ¬db.Above message.workflow workflow := by
  simp only [engaged,Bool.or_eq_false_iff] at free
  obtain ⟨apart,silent⟩ := free
  have elsewhere (message : Message) (same : origin = .message message) : ¬db.Above message.workflow workflow := by
    subst same
    exact without_above consistent apart
  have unasked (request : Request) (child : WorkflowId) (same : origin = .request request)
      (asks : request.asks = some child) (below : db.Above child workflow) : control.operation = none := by
    subst same
    have within := above_within consistent below
    simpa [asks,within] using apart
  have next (message : Message) (busy : control.operation = some (.send message)) :
      ¬db.Above message.workflow workflow := by
    rw [busy] at silent
    exact without_above consistent silent
  refine ⟨fun message sent below => ?_,?_,elsewhere⟩
  · cases control with
    | childSend => exact next _ rfl (List.mem_singleton.mp sent ▸ below)
    | send messages =>
      cases messages with
      | nil => exact absurd sent List.not_mem_nil
      | cons head rest =>
        have scope := (linked message sent).2
        match origin with
        | .message taken => exact elsewhere taken rfl (ReflTransGen.trans scope below)
        | .request (.launch _ _ _ _) =>
          have same := lone message sent head List.mem_cons_self (.inr ⟨_,rfl,rfl⟩)
          exact next head rfl (same ▸ below)
        | .request (.pause asked) => cases unasked _ asked rfl rfl (scope.symm ▸ below)
        | .request (.resume asked _) => cases unasked _ asked rfl rfl (scope.symm ▸ below)
        | .request (.cancel asked) => cases unasked _ asked rfl rfl (scope.symm ▸ below)
        | .request (.updateTemplate _ _) => cases scope
    | _ => exact absurd sent List.not_mem_nil
  · rintro ⟨child,acts,below⟩
    match origin with
    | .message taken => exact absurd (ReflTransGen.trans acts below) (elsewhere taken rfl)
    | .request request => exact unasked request child rfl acts below

end seen

end FinmarsWorkflow
