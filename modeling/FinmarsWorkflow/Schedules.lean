import FinmarsWorkflow.Data
import FinmarsWorkflow.Registry
import FinmarsWorkflow.Python.Effects

/-! Schedules, and the two ways to run them.
`Schedule.save` writes the call that celery beat will send into the columns of the row, and
`run_manual` makes the call from the current row. A new schedule is saved twice, because its key
is part of the call. -/
namespace FinmarsWorkflow.Scheduling
open Tenant Python

abbrev CrontabId := Nat
abbrev ScheduleId := Nat

/-- The five fields of a crontab. -/
structure Expression where
  minute : String
  hour : String
  dayOfMonth : String
  monthOfYear : String
  dayOfWeek : String
deriving DecidableEq

structure CrontabRow where
  expression : Expression
  timezone : String

/-- The columns of a schedule that a request sets. -/
structure Fields where
  userCode : String
  name : String
  notes : Option String
  payload : Json
  isManager : Bool
  space : SpaceId
  owner : Nat
  workflowUserCode : String
  enabled : Bool

/-- A schedule row; the two columns of its call hold encoded JSON. -/
structure Schedule (χ : Type) where
  fields : Fields
  crontab : CrontabId
  queue : String
  task : String
  args : χ
  kwargs : χ

structure Store (χ : Type) where
  spaces : List Space
  crontabs : List CrontabRow
  schedules : List (Schedule χ)

inductive Raised where
  | doesNotExist | multipleObjectsReturned | valueError | validationError
deriving DecidableEq

abbrev Saving (χ α : Type) := EStateM Raised (Store χ) α

inductive Column where
  | fields | crontab | queue | task | args | kwargs
deriving DecidableEq

/-- The row with the named columns of another one. -/
def Schedule.write {χ : Type} (old new : Schedule χ) (columns : List Column) : Schedule χ where
  fields := if .fields ∈ columns then new.fields else old.fields
  crontab := if .crontab ∈ columns then new.crontab else old.crontab
  queue := if .queue ∈ columns then new.queue else old.queue
  task := if .task ∈ columns then new.task else old.task
  args := if .args ∈ columns then new.args else old.args
  kwargs := if .kwargs ∈ columns then new.kwargs else old.kwargs

/-- What is outside of the repository: the encoding of JSON, the crontabs that Celery parses, and
the rows that `PeriodicTask.save` takes. -/
structure Platform (χ : Type) where
  encode : Json → χ
  parses : Expression → Bool
  accepts : Option ScheduleId → Schedule χ → Bool

/-- A schedule in memory: its key once it has one, and its crontab with the row. -/
structure Loaded (χ : Type) where
  pk : Option ScheduleId
  row : Schedule χ
  crontab : Expression

/-- What a call of `workflow.tasks.workflows.execute` is given. -/
structure Call where
  args : Json
  kwargs : Json

section calls

def argsOf (space : Space) (fields : Fields) : Json :=
  .arr [.str (space.spaceCode ++ "." ++ fields.workflowUserCode),fields.payload,.bool fields.isManager]

def kwargsOf (space : Space) (crontab : CrontabId) (schedule : ScheduleId) : Json :=
  .obj [("context",.obj [("realm_code",match space.realmCode with | some code => .str code | none => .null),
      ("space_code",.str space.spaceCode)]),
    ("crontab_id",.num crontab),("schedule_id",.num schedule)]

end calls

section save
variable {χ : Type} (platform : Platform χ)

def findSpace (space : SpaceId) (store : Store χ) : Except Raised Space := match store.spaces[space]? with
  | some row => .ok row
  | none => .error .doesNotExist

/-- `CrontabSchedule.objects.get_or_create` by the five fields. -/
def getOrCreate (expression : Expression) : Saving χ CrontabId := do
  let store : Store χ ← get
  match store.crontabs.zipIdx.filter (fun row => row.1.expression = expression) with
  | [(_,id)] => return id
  | [] => do
    set ({store with crontabs := store.crontabs ++ [⟨expression,"UTC"⟩]} : Store χ)
    return store.crontabs.length
  | _ => throw .multipleObjectsReturned

/-- `PeriodicTask.save`, with the columns of `update_fields` if it is given. -/
def periodicTaskSave (pk : Option ScheduleId) (updateFields : Option (List Column)) (row : Schedule χ) : Saving χ ScheduleId := do
  if platform.accepts pk row then
    let store : Store χ ← get
    match pk,updateFields with
    | none,_ => do
      set ({store with schedules := store.schedules ++ [row]} : Store χ)
      return store.schedules.length
    | some id,none => do
      set ({store with schedules := store.schedules.set id row} : Store χ)
      return id
    | some id,some columns => do
      set ({store with schedules := store.schedules.modify id (fun old => old.write row columns)} : Store χ)
      return id
  else throw .validationError

def Expression.line (expression : Expression) : String :=
  " ".intercalate [expression.minute,expression.hour,expression.dayOfMonth,expression.monthOfYear,expression.dayOfWeek]

/-- The row of a schedule before `save` knows its crontab. -/
def Loaded.prepared (schedule : Loaded χ) (space : Space) : Schedule χ :=
  let fields := schedule.row.fields
  let userCode := space.spaceCode ++ "." ++ fields.workflowUserCode
  {schedule.row with
    queue := "workflow"
    task := "workflow.tasks.workflows.execute"
    fields := {fields with
      name := if fields.name = "" then "periodic-" ++ userCode ++ "-" ++ schedule.crontab.line else fields.name}
    args := platform.encode (argsOf space fields)}

/-- `Schedule.save` -/
def save (schedule : Loaded χ) : Saving χ Unit := do
  let space ← attempt (findSpace schedule.row.fields.space (← get))
  let crontab ← getOrCreate schedule.crontab
  let row := {schedule.prepared platform space with crontab := crontab}
  match schedule.pk with
  | none => do
    let id ← periodicTaskSave platform none none row
    let _ ← periodicTaskSave platform (some id) (some [.kwargs]) {row with kwargs := platform.encode (kwargsOf space crontab id)}
  | some id => do
    let _ ← periodicTaskSave platform (some id) none {row with kwargs := platform.encode (kwargsOf space crontab id)}

end save

section requests
variable {χ : Type} (platform : Platform χ)

/-- The setter of `crontab_line`. -/
def parseLine (value : String) : Except Raised Expression :=
  match Python.split ' ' value with
  | [minute,hour,day,month,weekday] =>
    let expression : Expression := ⟨minute,hour,day,month,weekday⟩
    if platform.parses expression then .ok expression else .error .valueError
  | _ => .error .valueError

/-- A request that creates a schedule, or changes any of the columns of one and its crontab. -/
inductive Edit where
  | create (fields : Fields) (line : String)
  | update (schedule : ScheduleId) (change : Fields → Fields) (line : Option String)

/-- A stored schedule with its crontab, as a request loads it. -/
def load (schedule : ScheduleId) (store : Store χ) : Except Raised (Loaded χ) :=
  match store.schedules[schedule]? with
  | none => .error .doesNotExist
  | some row => match store.crontabs[row.crontab]? with
    | none => .error .doesNotExist
    | some crontab => .ok ⟨some schedule,row,crontab.expression⟩

def perform : Edit → Saving χ Unit
  | .create fields line => do
    let crontab ← attempt (parseLine platform line)
    save platform ⟨none,⟨fields,0,"","",platform.encode (.arr []),platform.encode (.obj [])⟩,crontab⟩
  | .update schedule change line => do
    let found ← attempt (load schedule (← get))
    let crontab ← match line with
      | some line => attempt (parseLine platform line)
      | none => pure found.crontab
    save platform {found with row := {found.row with fields := change found.row.fields},crontab := crontab}

inductive ManualRun where
  | refused (message : String)
  | sent (call : Call)

/-- `ScheduleViewSet.run_manual` -/
def runManual (schedule : ScheduleId) (store : Store χ) : Except Raised ManualRun := do
  let found ← load schedule store
  if found.row.fields.enabled then
    let space ← findSpace found.row.fields.space store
    return .sent ⟨argsOf space found.row.fields,kwargsOf space found.row.crontab schedule⟩
  else
    return .refused "Cannot run a disabled schedule."

/-- The call that celery beat sends: the decoded columns. -/
def beatCall (decode : χ → Option Json) (row : Schedule χ) : Option Call := do
  let args ← decode row.args
  let kwargs ← decode row.kwargs
  return ⟨args,kwargs⟩

end requests

section stored
variable {χ : Type} {platform : Platform χ} {store after : Store χ}

/-- The columns of every schedule hold the call that its other columns make. -/
def Current (platform : Platform χ) (store : Store χ) : Prop :=
  ∀ (id : ScheduleId) row, store.schedules[id]? = some row → row.crontab < store.crontabs.length ∧
    ∃ space, store.spaces[row.fields.space]? = some space ∧ row.args = platform.encode (argsOf space row.fields) ∧
      row.kwargs = platform.encode (kwargsOf space row.crontab id)

/-- A crontab is found or added; nothing else changes, and no crontab goes. -/
theorem getOrCreate_run {expression : Expression} {id : CrontabId}
    (done : (getOrCreate expression).run store = .ok id after) :
    after.spaces = store.spaces ∧ after.schedules = store.schedules ∧ store.crontabs.length ≤ after.crontabs.length ∧
      id < after.crontabs.length := by
  unfold getOrCreate at done
  obtain ⟨_,_,loaded,done⟩ := bind_returned done
  cases loaded
  split at done
  · rename_i found only
    cases done
    have among := (List.mem_filter.mp (by rw [only]; exact List.mem_singleton_self _)).1
    exact ⟨rfl,rfl,Nat.le_refl _,(List.getElem?_eq_some_iff.mp (List.mem_zipIdx_iff_getElem?.mp among)).1⟩
  · cases done
    exact ⟨rfl,rfl,by simp,by simp⟩
  · cases done

theorem insert_run {row : Schedule χ} {columns : Option (List Column)} {id : ScheduleId}
    (done : (periodicTaskSave platform none columns row).run store = .ok id after) :
    id = store.schedules.length ∧ after = {store with schedules := store.schedules ++ [row]} := by
  unfold periodicTaskSave at done
  split at done
  · cases done
    exact ⟨rfl,rfl⟩
  · cases done

theorem write_run {row : Schedule χ} {key id : ScheduleId}
    (done : (periodicTaskSave platform (some key) none row).run store = .ok id after) :
    after = {store with schedules := store.schedules.set key row} := by
  unfold periodicTaskSave at done
  split at done
  · cases done
    rfl
  · cases done

theorem writeColumns_run {row : Schedule χ} {columns : List Column} {key id : ScheduleId}
    (done : (periodicTaskSave platform (some key) (some columns) row).run store = .ok id after) :
    after = {store with schedules := store.schedules.modify key (fun old => old.write row columns)} := by
  unfold periodicTaskSave at done
  split at done
  · cases done
    rfl
  · cases done

theorem findSpace_ok {key : SpaceId} {space : Space} (found : findSpace key store = .ok space) :
    store.spaces[key]? = some space := by
  unfold findSpace at found
  split at found
  · rename_i row there
    rw [there,Except.ok.inj found]
  · cases found

/-- The two saves of a new schedule write one complete row. -/
theorem create_run {row : Schedule χ} {kwargs : ScheduleId → χ}
    (done : (do
      let id ← periodicTaskSave platform none none row
      let _ ← periodicTaskSave platform (some id) (some [.kwargs]) {row with kwargs := kwargs id} : Saving χ Unit).run store =
        .ok () after) :
    after = {store with schedules := store.schedules ++ [{row with kwargs := kwargs store.schedules.length}]} := by
  obtain ⟨id,middle,inserted,done⟩ := bind_returned done
  obtain ⟨_,last,written,ended⟩ := bind_returned done
  cases ended
  obtain ⟨rfl,rfl⟩ := insert_run inserted
  rw [writeColumns_run written]
  congr 1
  apply List.ext_getElem?
  intro index
  rw [List.getElem?_modify]
  by_cases new : store.schedules.length = index
  · subst new
    simp [Schedule.write]
  · rcases Nat.lt_or_gt_of_ne new with far | near
    · rw [List.getElem?_append_right (Nat.le_of_lt far),List.getElem?_append_right (Nat.le_of_lt far)]
      have out : 1 ≤ index - store.schedules.length := by omega
      rw [List.getElem?_eq_none (by simpa using out),List.getElem?_eq_none (by simpa using out)]
      rfl
    · rw [List.getElem?_append_left near,List.getElem?_append_left near]
      simp [new]

/-- A save leaves every row with the call of its columns, if every other row has its own. -/
theorem save_current {schedule : Loaded χ} (current : Current platform store)
    (done : (save platform schedule).run store = .ok () after) : Current platform after := by
  unfold save at done
  obtain ⟨_,_,loaded,done⟩ := bind_returned done
  cases loaded
  obtain ⟨space,found,done⟩ := attempt_bind_returned done
  have there := findSpace_ok found
  obtain ⟨crontab,middle,crontabs,done⟩ := bind_returned done
  obtain ⟨spaces,schedules,grown,known⟩ := getOrCreate_run crontabs
  have others : Current platform middle := by
    intro id row stored
    rw [schedules] at stored
    obtain ⟨earlier,complete⟩ := current id row stored
    rw [spaces]
    exact ⟨Nat.lt_of_lt_of_le earlier grown,complete⟩
  cases key : schedule.pk with
  | none =>
    rw [key] at done
    rw [@create_run _ _ _ _ _ (fun id => platform.encode (kwargsOf space crontab id)) done]
    intro id row stored
    rcases Nat.lt_or_ge id middle.schedules.length with old | new
    · exact others id row (by rwa [List.getElem?_append_left old] at stored)
    · rw [List.getElem?_append_right new] at stored
      obtain ⟨zero,rfl⟩ : id - middle.schedules.length = 0 ∧ _ = row := by
        rw [List.getElem?_singleton] at stored
        split at stored
        · rename_i zero
          exact ⟨zero,Option.some.inj stored⟩
        · cases stored
      obtain rfl : id = middle.schedules.length := Nat.le_antisymm (Nat.le_of_sub_eq_zero zero) new
      exact ⟨known,space,by rw [← spaces] at there; exact there,rfl,rfl⟩
  | some own =>
    rw [key] at done
    obtain ⟨_,last,written,ended⟩ := bind_returned done
    cases ended
    rw [write_run written]
    intro id row stored
    by_cases same : own = id
    · subst same
      rcases Nat.lt_or_ge own middle.schedules.length with inside | out
      · rw [List.getElem?_set_self inside] at stored
        obtain rfl := Option.some.inj stored
        exact ⟨known,space,by rw [← spaces] at there; exact there,rfl,rfl⟩
      · rw [List.getElem?_eq_none (by simpa using out)] at stored
        cases stored
    · exact others id row (by rwa [List.getElem?_set_ne same] at stored)

theorem perform_current {edit : Edit} (current : Current platform store) (done : (perform platform edit).run store = .ok () after) :
    Current platform after := by
  cases edit with
  | create fields line =>
    obtain ⟨crontab,_,done⟩ := attempt_bind_returned done
    exact save_current current done
  | update schedule change line =>
    obtain ⟨_,_,loaded,done⟩ := bind_returned done
    cases loaded
    obtain ⟨found,_,done⟩ := attempt_bind_returned done
    cases line with
    | none => exact save_current current done
    | some line =>
      obtain ⟨crontab,_,done⟩ := attempt_bind_returned done
      exact save_current current done

/-- What every schedule sends by beat is what it sends by hand, if it is enabled. -/
def SendsOneCall (decode : χ → Option Json) (store : Store χ) : Prop :=
  ∀ (id : ScheduleId) row, store.schedules[id]? = some row → ∃ call, beatCall decode row = some call ∧
    runManual id store = .ok (if row.fields.enabled then .sent call else .refused "Cannot run a disabled schedule.")

theorem current_sends {decode : χ → Option Json} (inverse : ∀ value, decode (platform.encode value) = some value)
    (current : Current platform store) : SendsOneCall decode store := by
  intro id row stored
  obtain ⟨known,space,there,args,kwargs⟩ := current id row stored
  refine ⟨⟨argsOf space row.fields,kwargsOf space row.crontab id⟩,?_,?_⟩
  · unfold beatCall
    rw [args,kwargs,inverse,inverse]
    rfl
  · have loaded : load id store = .ok ⟨some id,row,store.crontabs[row.crontab].expression⟩ := by
      unfold load
      simp only [stored,List.getElem?_eq_getElem known]
    have found : findSpace row.fields.space store = .ok space := by
      unfold findSpace
      simp only [there]
    unfold runManual
    rw [loaded]
    change (if row.fields.enabled then (findSpace row.fields.space store).bind _ else _) = _
    rw [found]
    cases row.fields.enabled <;> rfl

end stored

/-- After any completed sequence of creations and updates, beat and the manual run of every schedule send the
same call. -/
theorem schedules_send_one_call {χ : Type} (platform : Platform χ) (decode : χ → Option Json) (store after : Store χ)
    (edits : List Edit) (inverse : ∀ value, decode (platform.encode value) = some value)
    (empty : store.schedules = []) (completed : (forEach (perform platform) edits).run store = .ok () after) :
    SendsOneCall decode after := by
  apply current_sends inverse
  apply forEach_returned (fun _ store => Current platform store) _ _ completed
  · intro _ _ _ _ _ current done
    exact perform_current current done
  · intro id row stored
    rw [empty] at stored
    cases stored

section witness

/-- A platform that keeps the calls as they are. -/
def plainPlatform : Platform Json := ⟨id,fun _ => true,fun _ _ => true⟩

def hourlyFields : Fields := ⟨"test_workflow","hourly",none,.obj [("test",.str "data")],false,0,0,"test_workflow",true⟩

def everyHour : Expression := ⟨"0","*","*","*","*"⟩
def everyHalfHour : Expression := ⟨"30","*","*","*","*"⟩

def oneSpace : Space := ⟨some "realm00000","space00000"⟩

def scheduleRow (fields : Fields) (crontab : CrontabId) : Schedule Json :=
  ⟨fields,crontab,"workflow","workflow.tasks.workflows.execute",argsOf oneSpace fields,kwargsOf oneSpace crontab 0⟩

/-- The crontab that the schedule moves to is there before. -/
def noSchedule : Store Json := ⟨[oneSpace],[⟨everyHalfHour,"UTC"⟩],[]⟩
def oneSchedule : Store Json := ⟨[oneSpace],[⟨everyHalfHour,"UTC"⟩,⟨everyHour,"UTC"⟩],[scheduleRow hourlyFields 1]⟩

theorem parseLine_hour : parseLine plainPlatform "0 * * * *" = .ok everyHour := rfl
theorem parseLine_halfHour : parseLine plainPlatform "30 * * * *" = .ok everyHalfHour := rfl

theorem create_hourly : (perform plainPlatform (.create hourlyFields "0 * * * *")).run noSchedule = .ok () oneSchedule :=
  (bind_run (attempt_ok parseLine_hour)).trans rfl

/-- A schedule that is created, and then managed and moved to a crontab that is there already. -/
theorem schedules_send_one_call_twice : ∃ after, (forEach (perform plainPlatform) [.create hourlyFields "0 * * * *",
      .update 0 (fun fields => {fields with isManager := true}) (some "30 * * * *")]).run noSchedule = .ok () after ∧
    SendsOneCall some after := by
  have updates : ∃ after, (perform plainPlatform
      (.update 0 (fun fields => {fields with isManager := true}) (some "30 * * * *"))).run oneSchedule = .ok () after :=
    ⟨_,(bind_run (show (MonadState.get : Saving Json (Store Json)).run oneSchedule = .ok oneSchedule oneSchedule from rfl)).trans
      ((bind_run (attempt_ok (show load 0 oneSchedule = .ok ⟨some 0,scheduleRow hourlyFields 1,everyHour⟩ from rfl))).trans
        ((bind_run (attempt_ok parseLine_halfHour)).trans rfl))⟩
  obtain ⟨after,updated⟩ := updates
  have run : (forEach (perform plainPlatform) [.create hourlyFields "0 * * * *",
      .update 0 (fun fields => {fields with isManager := true}) (some "30 * * * *")]).run noSchedule = .ok () after :=
    (bind_run create_hourly).trans ((bind_run updated).trans rfl)
  exact ⟨after,run,schedules_send_one_call plainPlatform some noSchedule after _ (fun _ => rfl) rfl run⟩

end witness

end FinmarsWorkflow.Scheduling
