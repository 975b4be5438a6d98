import FinmarsWorkflow.Keys

/-! The log and the progress that a task body reports on its own row.
`log` saves the copy that `before_start` loaded and `update_progress` a fresh
one, so the stored row is that copy but for the progress. -/
namespace FinmarsWorkflow
open Interleave

def Call.text : Call → String
  | .log message => message ++ "\n"
  | .updateProgress _ => ""

def Call.progress? : Call → Option Json
  | .log _ => none
  | .updateProgress progress => some progress

/-- Every message in call order, each followed by a newline. -/
def logged : List Call → String
  | [] => ""
  | call::rest => call.text ++ logged rest

/-- The value of the last `update_progress`. -/
def lastProgress (calls : List Call) : Option Json := (calls.filterMap Call.progress?).getLast?

/-- The `progress` property of a task after it was set to a value. -/
def progressColumn : Json → Option Json
  | .null => none
  | value => some value

/-- The body of one task, from `before_start` on. -/
def taskBody (celery : CeleryId) (kwargs : Kwargs) : Prog Json := do
  let (id,task) ← beforeStart celery
  userCode id task kwargs

/-- A row says all that a task body reported since it was loaded. -/
def Reported (loaded : Task) (calls : List Call) (row : Task) : Prop :=
  row.log.getD "" = loaded.log.getD "" ++ logged calls ∧
    ∀ progress, lastProgress calls = some progress → row.progress = progressColumn progress

/-- Nothing is logged after the last `update_progress`, or that call reports what
the task already had when it was loaded. -/
def ProgressLast (loaded : Task) (calls : List Call) : Prop :=
  ∀ progress, lastProgress calls = some progress →
    calls.getLast? = some (.updateProgress progress) ∨ progressColumn progress = loaded.progress

/-- The progress that is stored after some calls. -/
def storedProgress (loaded : Option Json) : Option Json → List Call → Option Json
  | stored,[] => stored
  | _,.log _::rest => storedProgress loaded loaded rest
  | _,.updateProgress progress::rest => storedProgress loaded (progressColumn progress) rest

/-- Only the last of the calls decides about the progress. -/
theorem storedProgress_concat (loaded stored : Option Json) (front : List Call) (call : Call) :
    storedProgress loaded stored (front ++ [call]) = storedProgress loaded none [call] := by
  induction front generalizing stored with
  | nil => cases call <;> rfl
  | cons first front ih => cases first with
    | log message => exact ih loaded
    | updateProgress progress => exact ih (progressColumn progress)

/-- The stored progress is the last one reported, unless a later log undid it. -/
theorem storedProgress_eq_iff {task : Task} {stored : Option Json} {calls : List Call} :
    (∀ progress, lastProgress calls = some progress →
      storedProgress task.progress stored calls = progressColumn progress) ↔ ProgressLast task calls := by
  rcases List.eq_nil_or_concat calls with rfl | ⟨front,call,rfl⟩
  · constructor <;> intro _ progress reported <;> cases reported
  · rw [List.concat_eq_append]
    unfold ProgressLast
    rw [storedProgress_concat,List.getLast?_concat]
    cases call with
    | log message => simp [storedProgress,eq_comm]
    | updateProgress progress => simp [storedProgress,lastProgress,Call.progress?]

/-- The stored row stays the loaded copy, with the new log and the stored progress. -/
theorem performCalls_row (id : TaskId) (calls : List Call) (task : Task) (stored : Option Json) (answer : Outside)
    (db : Db) (found : db.tasks[id]? = some {task with progress := stored}) :
    ∃ log, log.getD "" = task.log.getD "" ++ logged calls ∧
      ((performCalls id task calls).run Operation.effect answer db).2.tasks[id]? =
        some {task with log := log,progress := storedProgress task.progress stored calls} := by
  have bound : id < db.tasks.length := (List.getElem?_eq_some_iff.mp found).1
  induction calls generalizing task stored db with
  | nil => exact ⟨task.log,by simp [logged],found⟩
  | cons call rest ih =>
    cases call with
    | log message =>
      let saved := {task with log := some (task.log.getD "" ++ message ++ "\n")}
      obtain ⟨log,text,row⟩ := ih saved saved.progress {db with tasks := db.tasks.set id saved}
        (List.getElem?_set_self bound) (by simpa using bound)
      refine ⟨log,?_,row⟩
      rw [text]
      simp [saved,logged,Call.text,String.append_assoc]
    | updateProgress progress =>
      let saved := {task with progress := progressColumn progress}
      obtain ⟨log,text,row⟩ := ih task (progressColumn progress) {db with tasks := db.tasks.set id saved}
        (List.getElem?_set_self bound) (by simpa using bound)
      refine ⟨log,?_,?_⟩
      · simpa [logged,Call.text] using text
      · have fresh : db.getTask id = .ok {task with progress := stored} := by simp [Db.getTask,found]
        simp only [performCalls,fetch,Program.monad_bind,Program.bind_step,Program.run_step,fresh,Program.lift_ok,
          Program.bind_pure,saveTask]
        cases progress <;> exact row

/-- What a task body has reported is in its row exactly when its last progress is
its last report, or no news. -/
theorem reported_iff {celery : CeleryId} {id : TaskId} {task : Task} {db : Db}
    (found : db.taskByCeleryId celery = .ok (id,task)) (kwargs : Kwargs) (outside : Outside) :
    (∃ row, ((taskBody celery kwargs).run Operation.effect outside db).2.tasks[id]? = some row ∧
      Reported task outside.calls row) ↔ ProgressLast task outside.calls := by
  have stored : db.tasks[id]? = some task := (getRow_ok found).1
  let started := {task with status := .progress,workerName := some outside.host}
  have saved : (db.tasks.set id started)[id]? = some started :=
    List.getElem?_set_self (List.getElem?_eq_some_iff.mp stored).1
  obtain ⟨log,text,row⟩ := performCalls_row id outside.calls started started.progress outside
    {db with tasks := db.tasks.set id started} saved
  have ended : ((taskBody celery kwargs).run Operation.effect outside db).2.tasks[id]? =
      some {started with log := log,progress := storedProgress started.progress started.progress outside.calls} := by
    rw [← row]
    simp only [taskBody,beforeStart,userCode,saveTask,Program.monad_bind,Program.monad_pure,Program.bind_step,
      Program.run_step,found,Except.map,Program.lift_ok,Program.bind_pure,Program.run_bind,Operation.effect,
      started]
    split
    · rename_i finished
      rw [finished]
      cases outside.outcome <;> rfl
    · rename_i finished
      rw [finished]
  rw [ended]
  unfold Reported
  constructor
  · intro holds
    obtain ⟨last,same,_,progress⟩ := holds
    cases same
    exact storedProgress_eq_iff.mp progress
  · intro last
    exact ⟨_,rfl,text,storedProgress_eq_iff.mpr last⟩

/-- A fresh task of one workflow, for runs on few rows. -/
def freshTask : Task :=
  { workflow := 0, nodeId := none, celeryTaskId := 0, name := "task", sourceCode := none, status := .init,
    workerName := none, payload := none, result := none, progress := none, log := none, errorMessage := none,
    finishedAt := false, space := 0 }

def freshDb : Db := ⟨[],[freshTask],[],[],1⟩

/-- Half of the work is done, and then something is logged. -/
def halfway : Outside := ⟨"worker",[.updateProgress (.num 50),.log "x"],.ok .null⟩

theorem progress_lost : ¬ ∃ row, ((taskBody 0 ⟨.null,none⟩).run Operation.effect halfway freshDb).2.tasks[0]? = some row ∧
    row.log.getD "" = logged halfway.calls ∧
    ∀ progress, lastProgress halfway.calls = some progress → row.progress = progressColumn progress := by
  intro kept
  obtain ⟨row,stored,_,progress⟩ := kept
  have shown := progress (.num 50) rfl
  cases stored
  cases shown

theorem reported_halfway_first : ∃ row,
    ((taskBody 0 ⟨.null,none⟩).run Operation.effect ⟨"worker",[.log "x",.updateProgress (.num 50)],.ok .null⟩
      freshDb).2.tasks[0]? = some row ∧ Reported freshTask [.log "x",.updateProgress (.num 50)] row :=
  (reported_iff rfl ⟨.null,none⟩ ⟨"worker",[.log "x",.updateProgress (.num 50)],.ok .null⟩).mpr
    (fun progress last => .inl (by cases last; rfl))

end FinmarsWorkflow
