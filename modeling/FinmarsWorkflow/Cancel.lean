import FinmarsWorkflow.Order
import FinmarsWorkflow.Quiet

/-! Cancelling a workflow of which nothing is in flight stops it for good.
Cancelling looks at task rows only: queued messages, running workers and the
children survive it. Where there are none of these, the cancelled rows are never
written again and no task is added, whatever is asked for or delivered later. -/
namespace FinmarsWorkflow
open Interleave Relation

/-- No task of the workflow is left to be cancelled. -/
def Ended (db : Db) (workflow : WorkflowId) : Prop :=
  ∀ (id : TaskId) (task : Task), db.tasks[id]? = some task → task.workflow = workflow → task.status.cancellable = false

/-- What a request to cancel still has to do covers all tasks it has to cancel. -/
def Control.Covers (db : Db) (workflow : WorkflowId) : Control → Prop
  | .cancelRead _ | .cancelTasks _ _ => True
  | .cancelTask _ _ id task rest => task.status = .canceled ∧ ∀ (other : TaskId) (stored : Task),
      db.tasks[other]? = some stored → stored.workflow = workflow → stored.status.cancellable = true →
      other = id ∨ ∃ copy, (other,copy) ∈ rest ∧ copy.status.cancellable = true
  | .cancelSave _ _ => Ended db workflow
  | _ => False

def Cancelling (workflow : WorkflowId) (db : Db) (origin : Origin) (control : Control) : Prop :=
  origin = .request (.cancel workflow) ∧ control.Covers db workflow

/-- No task of the second state that has still to be cancelled is new. -/
def Fewer (workflow : WorkflowId) (db later : Db) : Prop :=
  ∀ (id : TaskId) (task : Task), later.tasks[id]? = some task → task.workflow = workflow →
    task.status.cancellable = true → db.tasks[id]? = some task

theorem Fewer.ended {workflow : WorkflowId} {db later : Db} (fewer : Fewer workflow db later)
    (ended : Ended db workflow) : Ended later workflow := by
  intro id task stored owner
  by_contra active
  have active : task.status.cancellable = true := by simpa using active
  exact Bool.false_ne_true ((ended id task (fewer id task stored owner active) owner).symm.trans active)

theorem Control.Covers.mono {db later : Db} {workflow : WorkflowId} {control : Control}
    (covers : control.Covers db workflow) (fewer : Fewer workflow db later) : control.Covers later workflow := by
  cases control with
  | cancelRead | cancelTasks => trivial
  | cancelTask =>
    exact ⟨covers.1,fun other stored found owner active => covers.2 other stored (fewer other stored found owner active) owner active⟩
  | cancelSave => exact fewer.ended covers
  | _ => cases covers

theorem cancelling_covers {db : Db} {workflow other : WorkflowId} {row : Workflow} {entries : List (TaskId × Task)}
    (listed : ∀ id stored, db.tasks[id]? = some stored → stored.workflow = workflow → stored.status.cancellable = true →
      ∃ copy, (id,copy) ∈ entries ∧ copy.status.cancellable = true) :
    (Control.cancelling other row entries).Covers db workflow := by
  refine Control.cancelling_elim (fun ended => ?_) (fun front id task rest same ended _ => ⟨rfl,?_⟩)
  · intro id stored found owner
    by_contra active
    obtain ⟨copy,inside,still⟩ := listed id stored found owner (by simpa using active)
    exact Bool.false_ne_true ((ended _ inside).symm.trans still)
  · intro id stored found owner active
    obtain ⟨copy,inside,still⟩ := listed id stored found owner active
    rw [same] at inside
    rcases List.mem_append.mp inside with early | late
    · exact absurd ((ended _ early).symm.trans still) Bool.false_ne_true
    · rcases List.mem_cons.mp late with equal | late
      · exact .inl (congrArg Prod.fst equal)
      · exact .inr ⟨copy,late,still⟩

theorem mem_tasksOf {db : Db} {workflow : WorkflowId} {id : TaskId} {task : Task} (stored : db.tasks[id]? = some task)
    (owner : task.workflow = workflow) : (id,task) ∈ db.tasksOf workflow := by
  simp only [Db.tasksOf,List.mem_map,List.mem_reverse,List.mem_filter]
  exact ⟨(task,id),⟨List.mk_mem_zipIdx_iff_getElem?.mpr stored,by simp [owner]⟩,rfl⟩

section serving
variable {definitions : Definitions} {before after : Controlled definitions} {label : Action} {workflow : WorkflowId}

/-- What a request to cancel does in one step. -/
theorem cancelling_step {origin : Origin} {control : Control} {operation : Operation} (outside : Outside)
    (linked : control.Linked before.shared origin) (cancels : Cancelling workflow before.shared origin control)
    (busy : control.operation = some operation) :
    (operation = .read ∨
      (∃ id row, operation = .saveTask id row ∧ row.workflow = workflow ∧ row.status = .canceled ∧
        before.shared.taskKey id = some row.key) ∨
      ∃ row, operation = .saveWorkflow workflow row ∧ row.status = .canceled ∧ Ended before.shared workflow) ∧
    (control.next definitions before.shared outside).outbox = [] ∧
    ((control.next definitions before.shared outside).operation = none ∨
      Cancelling workflow (operation.effect before.shared) origin (control.next definitions before.shared outside)) := by
  obtain ⟨request,covers⟩ := cancels
  subst request
  have silent {row : Workflow} {entries : List (TaskId × Task)} :
      (Control.cancelling workflow row entries).outbox = [] :=
    Control.cancelling_elim (P := fun point => point.outbox = []) (fun _ => rfl) (fun _ _ _ _ _ _ _ => rfl)
  cases control with
  | cancelRead other =>
    cases linked
    cases busy
    refine ⟨.inl rfl,?_⟩
    simp only [Control.next]
    repeat' split
    all_goals first | exact ⟨rfl,.inl rfl⟩ | exact ⟨rfl,.inr ⟨rfl,trivial⟩⟩
  | cancelTasks other row =>
    cases linked.1
    cases busy
    refine ⟨.inl rfl,silent,.inr ⟨rfl,cancelling_covers (fun id stored found owner active => ?_)⟩⟩
    exact ⟨stored,mem_tasksOf found owner,active⟩
  | cancelTask other row id task rest =>
    cases linked.1
    cases busy
    have held := linked.2.2 _ List.mem_cons_self
    refine ⟨.inr (.inl ⟨id,task,rfl,held.2,covers.1,held.1⟩),silent,.inr ⟨rfl,cancelling_covers ?_⟩⟩
    intro changed stored found owner active
    simp only [Operation.effect,List.getElem?_set] at found
    split at found
    next same =>
      split at found
      · cases found
        rw [covers.1] at active
        cases active
      · cases found
    next differs =>
      rcases covers.2 changed stored found owner active with same | late
      · exact absurd same.symm differs
      · exact late
  | cancelSave other row =>
    cases linked.1
    cases busy
    exact ⟨.inr (.inr ⟨_,rfl,rfl,covers⟩),rfl,.inl rfl⟩
  | _ => cases covers

theorem cancelling_careful (workflow : WorkflowId) (sound : Sound before) : Careful (Cancelling workflow) workflow before := by
  intro origin control operation answer member _ cancels busy
  obtain ⟨kinds,silent,continues⟩ := cancelling_step answer (sound.threads _ member).2 cancels busy
  refine ⟨?_,by rw [silent]; exact fun _ sent => absurd sent List.not_mem_nil,continues⟩
  rcases kinds with rfl | ⟨id,row,rfl,_⟩ | ⟨row,rfl,_⟩ <;> rintro other ⟨⟩

/-- From the state on in which it was asked for, until the cancelling is done. -/
structure Stopping (start : Db) (S : Controlled definitions) (workflow : WorkflowId) : Prop where
  calm : Calm (Cancelling workflow) S workflow
  workers : ∀ thread ∈ S.threads, ∀ message, thread.1 = .message message → ¬S.shared.Above message.workflow workflow
  family : ∀ child, start.Above child workflow ↔ S.shared.Above child workflow
  rows : ∀ child row, start.Above child workflow → child ≠ workflow → start.workflows[child]? = some row →
    S.shared.workflows[child]? = some row
  own : ∀ row, S.shared.workflows[workflow]? = some row → row.status.terminal = true →
    row.status = .canceled ∧ Ended S.shared workflow
  tasks : ∀ (id : TaskId) (task : Task), S.shared.tasks[id]? = some task → start.Above task.workflow workflow →
    start.tasks[id]? = some task ∨ id < start.tasks.length ∧ task.workflow = workflow ∧ task.status = .canceled

/-- A request about the workflow or a descendant, other than cancelling the workflow. -/
def interferes (workflow : WorkflowId) (view : Seen) : Action → Bool
  | .move (.request (.cancel asked)) => asked != workflow && view.shared.within workflow asked
  | .move (.request request) => request.asks.any (view.shared.within workflow)
  | _ => false

/-- Nothing but cancelling the workflow is asked for of it and its descendants. -/
def onlyCancelled (workflow : WorkflowId) : Allowed := fun view label => interferes workflow view label = false

instance (workflow : WorkflowId) (view : Seen) (label : Action) : Decidable (onlyCancelled workflow view label) :=
  inferInstanceAs (Decidable (_ = false))

/-- No worker of the family appears where none is queued. -/
theorem workers_step {excused : Db → Origin → Control → Prop} (calm : Calm excused before workflow)
    (family : ∀ child, before.shared.Above child workflow ↔ after.shared.Above child workflow)
    (workers : ∀ thread ∈ before.threads, ∀ message, thread.1 = .message message →
      ¬before.shared.Above message.workflow workflow)
    (step : Step machine Origin.control before label after) :
    ∀ thread ∈ after.threads, ∀ message, thread.1 = .message message → ¬after.shared.Above message.workflow workflow := by
  rintro ⟨origin,control⟩ member message rfl below
  have old := (family _).mpr below
  rcases step.thread_cases member with inside | ⟨_,_,_,_,_,found,_,_,_⟩ | ⟨environment,_,reacts,_⟩
  · exact workers _ inside message rfl old
  · exact workers _ (List.mem_of_getElem? found) message rfl old
  · obtain ⟨_,_,_,spawned,_⟩ := react_queue reacts
    exact calm.queue message (spawned message rfl) old

theorem workers_once (workers : ∀ thread ∈ before.threads, ∀ message, thread.1 = .message message →
    ¬before.shared.Above message.workflow workflow) : ¬Repeats workflow before label := by
  rintro ⟨index,message,_,found,below⟩
  rw [List.getElem?_map,Option.map_eq_some_iff] at found
  obtain ⟨thread,present,same⟩ := found
  exact workers thread (List.mem_of_getElem? present) message same below

/-- The changes that cancelling makes to the family in one step. -/
structure Cancels (workflow : WorkflowId) (db later : Db) : Prop where
  rows : ∀ child row, db.Above child workflow → child ≠ workflow → db.workflows[child]? = some row →
    later.workflows[child]? = some row
  own : later.workflows[workflow]? = db.workflows[workflow]? ∨ Ended later workflow
  status : ∀ row, later.workflows[workflow]? = some row → db.workflows[workflow]? = some row ∨ row.status = .canceled
  tasks : ∀ (id : TaskId) (task : Task), later.tasks[id]? = some task → db.Above task.workflow workflow →
    db.tasks[id]? = some task ∨ (db.taskKey id).isSome ∧ task.workflow = workflow ∧ task.status = .canceled

theorem cancels_step (sound : Sound before) (calm : Calm (Cancelling workflow) before workflow)
    (step : Step machine Origin.control before label after) : Cancels workflow before.shared after.shared := by
  obtain ⟨key,known⟩ := Option.isSome_iff_exists.mp calm.known
  have bound := workflowKey_lt known
  rcases (calm_changes sound calm (cancelling_careful workflow sound) step).2 with
    ⟨index,answer,origin,control,operation,_,found,busy,cancels,same⟩ | kept
  · rw [same]
    have member := List.mem_of_getElem? found
    obtain ⟨kinds,_⟩ := cancelling_step answer (sound.threads _ member).2 cancels busy
    rcases kinds with rfl | ⟨id,row,rfl,owner,canceled,stored⟩ | ⟨row,rfl,canceled,ended⟩
    · exact ⟨fun _ _ _ _ found => found,.inl rfl,fun _ found => .inl found,fun _ _ found _ => .inl found⟩
    · refine ⟨fun _ _ _ _ found => found,.inl rfl,fun _ found => .inl found,fun changed task found _ => ?_⟩
      simp only [Operation.effect,List.getElem?_set] at found
      split at found
      next equal =>
        split at found
        · cases found
          exact .inr ⟨equal ▸ Option.isSome_iff_exists.mpr ⟨_,stored⟩,owner,canceled⟩
        · cases found
      next => exact .inl found
    · refine ⟨fun child stored _ other found => (List.getElem?_set_ne (Ne.symm other)).trans found,.inr ended,fun stored found => ?_,
        fun _ _ found _ => .inl found⟩
      simp only [Operation.effect,List.getElem?_set_self bound] at found
      cases found
      exact .inr canceled
  · refine ⟨fun child row below _ => kept.workflows child row below,?_,fun row found => ?_,fun id task found below =>
      .inl (kept.tasks id task below found)⟩
    · exact .inl ((kept.workflows workflow _ .refl (List.getElem?_eq_getElem bound)).trans (List.getElem?_eq_getElem bound).symm)
    · have same := kept.workflows workflow _ .refl (List.getElem?_eq_getElem bound)
      exact .inl ((List.getElem?_eq_getElem bound).trans (same.symm.trans found))

theorem Cancels.fewer {db later : Db} (cancels : Cancels workflow db later) : Fewer workflow db later := by
  intro id task found owner active
  rcases cancels.tasks id task found (owner ▸ .refl) with same | ⟨_,_,canceled⟩
  · exact same
  · rw [canceled] at active
    cases active

theorem stopping_step {start : Db} (sound : Sound before) (stopping : Stopping start before workflow)
    (allowed : onlyCancelled workflow before.view label) (step : Step machine Origin.control before label after) :
    Stopping start after workflow := by
  have calm := stopping.calm
  have careful := cancelling_careful workflow sound
  have family := (calm_changes sound calm careful step).1
  have cancels := cancels_step sound calm step
  refine ⟨?_,workers_step calm family stopping.workers step,fun child => (stopping.family child).trans (family child),
    fun child row below other found => ?_,fun row found terminal => ?_,fun id task found below => ?_⟩
  · refine calm_step sound calm careful (workers_once stopping.workers)
      (fun origin control _ ⟨request,covers⟩ => ⟨request,covers.mono cancels.fewer⟩) ?_ step
    rintro request rfl ⟨child,acts,below⟩
    have within := above_within sound.shared below
    cases request with
    | cancel asked =>
      cases acts
      have same : child = workflow := by simpa [onlyCancelled,interferes,System.view,within] using allowed
      exact ⟨congrArg (fun id => Origin.request (.cancel id)) same,trivial⟩
    | launch | updateTemplate => cases acts
    | pause asked | resume asked =>
      cases acts
      simp [onlyCancelled,interferes,Request.asks,System.view,within] at allowed
  · exact cancels.rows child row ((stopping.family child).mp below) other (stopping.rows child row below other found)
  · rcases cancels.status row found with same | canceled
    · obtain ⟨canceled,ended⟩ := stopping.own row same terminal
      exact ⟨canceled,cancels.fewer.ended ended⟩
    · refine ⟨canceled,?_⟩
      rcases cancels.own with same | ended
      · exact cancels.fewer.ended (stopping.own row (same.symm.trans found) terminal).2
      · exact ended
  · have inside := (stopping.family _).mp below
    rcases cancels.tasks id task found inside with same | ⟨known,owner,canceled⟩
    · exact stopping.tasks id task same below
    · obtain ⟨key,stored⟩ := Option.isSome_iff_exists.mp known
      obtain ⟨old,there,rfl⟩ := Option.map_eq_some_iff.mp stored
      refine .inr ⟨?_,owner,canceled⟩
      have grows := (sound_step sound step).2.task id old.key stored
      have equal : old.workflow = task.workflow := by
        have both : some old.key = some task.key := grows.symm.trans (taskKey_of_stored found)
        exact congrArg TaskKey.workflow (Option.some.inj both)
      rcases stopping.tasks id old there (equal ▸ below) with same | ⟨bound,_⟩
      · exact (List.getElem?_eq_some_iff.mp same).1
      · exact bound

/-- Nothing is at work, so that cancelling is all that can happen to the family. -/
theorem deserted_stopping (sound : Sound before) (lone : Lone before)
    (idle : deserted before.shared before.view.threads workflow = true) {row : Workflow}
    (stored : before.shared.workflows[workflow]? = some row) (unfinished : row.status.terminal = false) :
    Stopping before.shared before workflow := by
  simp only [deserted,Bool.and_eq_true,List.all_eq_true,Bool.not_eq_true'] at idle
  have free (thread : Origin × Control) (member : thread ∈ before.threads) :=
    unengaged sound.shared (sound.threads _ member).2 (lone _ member)
      (idle.1.2 (thread.1,Control.operation thread.2) (List.mem_map.mpr ⟨thread,member,rfl⟩))
  refine ⟨⟨?_,fun message queued => without_above sound.shared (idle.1.1 message queued),fun thread member => (free thread member).1,
      fun thread member engaged => .inl ((free thread member).2.1 engaged)⟩,
    fun thread member => (free thread member).2.2,fun _ => Iff.rfl,fun _ _ _ _ found => found,fun other found terminal => ?_,
    fun _ _ found _ => .inl found⟩
  · simp [Db.workflowKey,stored]
  · cases Option.some.inj (stored.symm.trans found)
    cases unfinished.symm.trans terminal

theorem deserted_rows (sound : Sound before) {threads : List (Origin × Option Operation)}
    (idle : deserted before.shared threads workflow = true) {child : WorkflowId} (below : before.shared.Above child workflow) (other : child ≠ workflow) :
    ∃ row, before.shared.workflows[child]? = some row ∧ row.status.terminal = true := by
  simp only [deserted,Bool.and_eq_true,List.all_eq_true] at idle
  obtain ⟨key,stored⟩ : ∃ key, before.shared.workflowKey child = some key := by
    rcases ReflTransGen.cases_head below with same | ⟨parent,⟨key,stored,_⟩,_⟩
    · exact absurd same other
    · exact ⟨key,stored⟩
  obtain ⟨row,found,_⟩ := Option.map_eq_some_iff.mp stored
  have entry := idle.2 (row,child) (List.mk_mem_zipIdx_iff_getElem?.mpr found)
  have within := above_within sound.shared below
  simp only [within,Bool.not_true,Bool.or_false,Bool.or_eq_true,beq_iff_eq] at entry
  exact ⟨row,found,entry.resolve_left other⟩

/-- The workflow is cancelled and nobody is about to cancel it: the family is left alone. -/
theorem stopping_quiet {start : Db} (stopping : Stopping start before workflow)
    (done : ∀ thread ∈ before.view.threads, thread.1 = .request (.cancel workflow) → thread.2 = none)
    (finished : ∀ child, start.Above child workflow → child ≠ workflow →
      ∃ row, start.workflows[child]? = some row ∧ row.status.terminal = true)
    {row : Workflow} (stored : before.shared.workflows[workflow]? = some row) (terminal : row.status.terminal = true) :
    Quiet before workflow := by
  have calm := stopping.calm
  refine ⟨⟨calm.known,calm.queue,calm.outbox,fun thread member engaged => ?_⟩,fun child below => ?_⟩
  · rcases calm.threads thread member engaged with idle | ⟨request,_⟩
    · exact .inl idle
    · exact .inl (done (thread.1,Control.operation thread.2) (List.mem_map.mpr ⟨thread,member,rfl⟩) request)
  · have old := (stopping.family child).mpr below
    by_cases same : child = workflow
    · exact same ▸ ⟨row,stored,terminal⟩
    · obtain ⟨other,found,ended⟩ := finished child old same
      exact ⟨other,stopping.rows child other old same found,ended⟩

end serving

/-- Cancelling has stopped a workflow: since the first state no task was added to it
or to a descendant, and all that was unfinished is cancelled. -/
structure Stopped (workflow : WorkflowId) (db later : Db) : Prop where
  tasks : ∀ (id : TaskId) (task : Task), later.tasks[id]? = some task → later.Above task.workflow workflow →
    id < db.tasks.length
  canceled : ∀ (id : TaskId) (task : Task), db.tasks[id]? = some task → task.workflow = workflow →
    task.status.cancellable = true → ∃ now, later.tasks[id]? = some now ∧ now.status = .canceled
  unfinished : ∀ (child : WorkflowId) (row : Workflow), db.Above child workflow → db.workflows[child]? = some row →
    row.status.terminal = false → ∃ now, later.workflows[child]? = some now ∧ now.status = .canceled

section run
variable {definitions : Definitions} {allowed : Allowed} {first last : Controlled definitions}
  {events : List (Origin × Operation)}

theorem lone_run (run : Run machine Origin.control allowed first events last) (sound : Sound first) (lone : Lone first) :
    Sound last ∧ Lone last :=
  run.invariant (fun S => Sound S ∧ Lone S)
    (fun _ _ _ ⟨sound,lone⟩ _ step => ⟨(sound_step sound step).1,lone_step sound lone step⟩) ⟨sound,lone⟩

theorem stopping_run {workflow : WorkflowId} {start : Db}
    (run : Run machine Origin.control (onlyCancelled workflow) first events last) (sound : Sound first)
    (stopping : Stopping start first workflow) : Sound last ∧ Stopping start last workflow :=
  run.invariant (fun S => Sound S ∧ Stopping start S workflow)
    (fun _ _ _ ⟨sound,stopping⟩ meets step => ⟨(sound_step sound step).1,stopping_step sound stopping meets step⟩)
    ⟨sound,stopping⟩

/-- Without a worker of it, a quiet family stays as it is in every run. -/
theorem quiet_run {workflow : WorkflowId} (run : Run machine Origin.control allowed first events last)
    (sound : Sound first) (quiet : Quiet first workflow)
    (workers : ∀ thread ∈ first.threads, ∀ message, thread.1 = .message message →
      ¬first.shared.Above message.workflow workflow) : Kept workflow first.shared last.shared := by
  refine (run.invariant (fun S => (Sound S ∧ Quiet S workflow ∧ ∀ thread ∈ S.threads, ∀ message,
    thread.1 = .message message → ¬S.shared.Above message.workflow workflow) ∧ Kept workflow first.shared S.shared) ?_
    ⟨⟨sound,quiet,workers⟩,.refl _ _⟩).2
  rintro before label after ⟨⟨sound,quiet,workers⟩,kept⟩ _ step
  obtain ⟨still,keeps⟩ := quiet_step sound quiet (workers_once workers) step
  exact ⟨⟨(sound_step sound step).1,still,workers_step quiet.calm keeps.family workers step⟩,kept.trans keeps⟩

end run

theorem unused_lone (definitions : Definitions) (templates : List WorkflowTemplate) : Lone (unused definitions templates) :=
  fun _ member => absurd member List.not_mem_nil

/-- In every reachable state in which nothing of an unfinished workflow and its
descendants is queued, at work or asked for and all descendants have finished,
cancelling stops it: while it is served nothing else is asked of the family, and
afterwards anything at all may happen. -/
theorem cancel_stops (definitions : Definitions) (templates : List WorkflowTemplate) (workflow : WorkflowId)
    (front between back : List (Origin × Operation)) (middle after last : Installation)
    (head : Execution definitions anything (installed templates) front middle)
    (idle : deserted middle.shared middle.view.threads workflow = true)
    (row : Workflow) (stored : middle.shared.workflows[workflow]? = some row) (unfinished : row.status.terminal = false)
    (served : Execution definitions (onlyCancelled workflow) middle between after)
    (now : Workflow) (found : after.shared.workflows[workflow]? = some now) (canceled : now.status = .canceled)
    (done : ∀ thread ∈ after.view.threads, thread.1 = .request (.cancel workflow) → thread.2 = none)
    (tail : Execution definitions anything after back last) : Stopped workflow middle.shared last.shared := by
  obtain ⟨near,run,alike⟩ := execution_follow head
  obtain ⟨there,serving,like⟩ := served.follow origin_simulated alike
  obtain ⟨far,rest,same⟩ := tail.follow origin_simulated like
  rw [alike.shared] at idle stored ⊢
  rw [alike.view] at idle
  rw [like.shared] at found
  rw [like.view] at done
  rw [same.shared]
  obtain ⟨sound,lone⟩ := lone_run run (unused_sound templates) (unused_lone definitions templates)
  obtain ⟨later,stopping⟩ := stopping_run serving sound (deserted_stopping sound lone idle stored unfinished)
  have terminal : now.status.terminal = true := by rw [canceled]; rfl
  have quiet := stopping_quiet stopping done (fun child below other => deserted_rows sound idle below other) found terminal
  have kept := quiet_run rest later quiet stopping.workers
  have grows := (sound_run serving sound).2
  have grown := (sound_run rest later).2
  refine ⟨fun id task there below => ?_,fun id task there owner active => ?_,fun child old below there open_ => ?_⟩
  · have inside := (kept.family _).mpr below
    rcases stopping.tasks id task (kept.tasks id task inside there) ((stopping.family _).mpr inside) with old | ⟨bound,_⟩
    · exact (List.getElem?_eq_some_iff.mp old).1
    · exact bound
  · -- the row is still there, cancelled and no longer written
    obtain ⟨final,stays,key⟩ := Option.map_eq_some_iff.mp (grown.task id task.key (grows.task id task.key (taskKey_of_stored there)))
    have home : final.workflow = workflow := (congrArg TaskKey.workflow key).trans owner
    refine ⟨final,stays,?_⟩
    have held := kept.tasks id final (home ▸ .refl) stays
    rcases stopping.tasks id final held (home ▸ .refl) with old | ⟨_,_,canceled⟩
    · cases Option.some.inj (there.symm.trans old)
      exact absurd ((stopping.own now found terminal).2 id task held owner) (by rw [active]; decide)
    · exact canceled
  · by_cases equal : child = workflow
    · subst child
      exact ⟨now,kept.workflows _ now .refl found,canceled⟩
    · obtain ⟨other,stays,ended⟩ := deserted_rows sound idle below equal
      cases Option.some.inj (there.symm.trans stays)
      cases open_.symm.trans ended

/-- A request that is served before anything else happens. -/
def served (request : Request) : Schedule := [.take (.move (.request request)),.finish 0 (.returns .null)]

/-- The workflow is cancelled, and no thread is left. -/
def cancelledAlone (S : Installation) : Bool :=
  (S.shared.workflows[0]?).any (fun row => row.status == .canceled) && S.threads.isEmpty

/-- A schedule that leads to a state from which a cancel and a third schedule follow. -/
theorem cancel_schedule (templates : List WorkflowTemplate) (first last : Schedule) (start final : Installation → Bool)
    (computed : ((installed templates).execute machine (Origin.program versionOne) anything first).any (fun S =>
      start S && (S.execute machine (Origin.program versionOne) (onlyCancelled 0) (served (.cancel 0))).any (fun T =>
        cancelledAlone T && (T.execute machine (Origin.program versionOne) anything last).any final)) = true) :
    ∃ front between back middle after last,
      Execution versionOne anything (installed templates) front middle ∧ start middle = true ∧
      Execution versionOne (onlyCancelled 0) middle between after ∧ cancelledAlone after = true ∧
      Execution versionOne anything after back last ∧ final last = true := by
  obtain ⟨front,middle,head,found⟩ := schedule_execution versionOne anything templates first _ computed
  obtain ⟨begins,serves⟩ := Bool.and_eq_true_iff.mp found
  obtain ⟨between,after,cancels,reached⟩ := execute_any (served (.cancel 0)) serves
  obtain ⟨canceled,continues⟩ := Bool.and_eq_true_iff.mp reached
  obtain ⟨back,last,tail,ends⟩ := execute_any last continues
  exact ⟨front,between,back,middle,after,last,head,begins,cancels,canceled,tail,ends⟩

/-- A worker is lost after it started its task, its message comes back to a paused
workflow and is parked there; then the workflow is cancelled and asked to resume. -/
theorem cancel_stops_paused : ∃ front between back middle after last,
    Execution versionOne anything (installed [⟨"t",0,twoNodes⟩]) front middle ∧
    Execution versionOne (onlyCancelled 0) middle between after ∧
    Execution versionOne anything after back last ∧
    middle.shared.tasks.any (fun task => task.status.cancellable) = true ∧ Stopped 0 middle.shared last.shared := by
  obtain ⟨front,between,back,middle,after,last,head,begins,cancels,canceled,tail,_⟩ :=
    cancel_schedule [⟨"t",0,twoNodes⟩]
      (opened ++ [.take (.move (.deliver 0))] ++ List.replicate 4 (.take (.advance 0 (.returns .null))) ++
        [.take (.move (.lose 0))] ++ served (.pause 0) ++ processed 0 .null)
      (served (.resume 0 none))
      (fun S => deserted S.shared S.view.threads 0 && S.shared.tasks.any (fun task => task.status.cancellable) &&
        (S.shared.workflows[0]?).any (fun row => !row.status.terminal))
      (fun _ => true) (by decide)
  simp only [Bool.and_eq_true] at begins
  obtain ⟨row,stored,unfinished⟩ := (Option.any_eq_true _ _).mp begins.2
  obtain ⟨status,alone⟩ := Bool.and_eq_true_iff.mp canceled
  obtain ⟨now,found,is⟩ := (Option.any_eq_true _ _).mp status
  have nobody : after.view.threads = [] := by simp [System.view,List.isEmpty_iff.mp alone]
  exact ⟨front,between,back,middle,after,last,head,cancels,tail,begins.1.2,
    cancel_stops versionOne [⟨"t",0,twoNodes⟩] 0 front between back middle after last head begins.1.1 row stored
      (by simpa using unfinished) cancels now found (by simpa using is)
      (fun thread member => absurd (nobody ▸ member) List.not_mem_nil) tail⟩

/-- A queued message survives the cancelling: its node still gets a task. -/
theorem cancelled_workflow_runs_on : ∃ front between back middle after last,
    Execution versionOne anything (installed [⟨"t",0,twoNodes⟩]) front middle ∧
    Execution versionOne (onlyCancelled 0) middle between after ∧ cancelledAlone after = true ∧
    Execution versionOne anything after back last ∧ ¬Stopped 0 middle.shared last.shared := by
  obtain ⟨front,between,back,middle,after,last,head,begins,cancels,canceled,tail,ends⟩ :=
    cancel_schedule [⟨"t",0,twoNodes⟩] opened (processed 0 .null) (fun S => S.shared.tasks.isEmpty)
      (fun S => (S.shared.tasks[0]?).any (fun task => task.workflow == 0)) (by decide)
  refine ⟨front,between,back,middle,after,last,head,cancels,canceled,tail,fun stopped => ?_⟩
  obtain ⟨task,found,owner⟩ := (Option.any_eq_true _ _).mp ends
  have home : task.workflow = 0 := by simpa using owner
  have bound := stopped.tasks 0 task found (home ▸ .refl)
  simp [List.isEmpty_iff.mp begins] at bound

end FinmarsWorkflow
