import FinmarsWorkflow.Canvas
import FinmarsWorkflow.Requests

/-! A launch, from the request to the last message.
`execute_workflow` saves the workflow and then builds and sends it. The only guard is around
the sending of a version-1 chain, and it closes the workflow but not the tasks that the
builder has saved. -/
namespace FinmarsWorkflow.Build
open Tenant Python

structure Order where
  username : String
  userCode : String
  payload : Option Json
  realmCode : Option String
  spaceCode : String
  platformTaskId : Option Int
  crontabId : Option Nat

/-- What a launch finds: users, definitions, spaces and templates, the truth values that a boolean
column takes, the key of the row that it saves, and whether the broker takes what it sends. -/
structure Installation where
  objects : Objects
  user : String → Except Raised Unit
  definition : String → Except Raised Yaml
  space : String → Except Raised Unit
  template : String → String → Except Raised (Option TemplateId)
  boolean : Yaml → Except Raised Bool
  workflowId : WorkflowId
  accepts : Bool

section launch
variable (installation : Installation) (order : Order)

def Order.context : Context := ⟨order.realmCode,order.spaceCode⟩

/-- The payload column of the workflow, as its property reads it. -/
def Order.stored : Json := workflowPayload (order.payload.getD (.obj []))

/-- `wf["workflow"].get("is_manager", False)` -/
def isManager (definition : Yaml) : Except Raised Yaml := do
  let flag ← (item "workflow" definition).bind (dictGet "is_manager")
  return flag.getD (.other "False")

/-- A broker that does not take a message makes `apply_async` raise. -/
def applyAsync (message : Message) : Building Unit :=
  if installation.accepts then modify fun draft => {draft with sent := draft.sent ++ [message]}
  else throw .operationalError

def saveStatus (status : WorkflowStatus) : Building Unit :=
  modify fun draft => {draft with workflow := draft.workflow.map (fun row => {row with status := status})}

/-- The launcher of the failure hook, which is no task itself. -/
def failureCanvas (built : Built) : Building (List Element) :=
  match installation.objects.hook built.failureHook with
  | none => return []
  | some hook => do
    setPrevious none
    return [.failureHooksLauncher built.job.workflow built.job.queue [hook] built.job.payload built.job.context]

/-- The success hook, which is a task like the others. -/
def successCanvas (built : Built) : Building (List Element) :=
  match installation.objects.hook built.successHook with
  | none => return []
  | some hook => do
    let parsed ← parseFlatTasks installation.objects built.job true [hook]
    return parsed.take 1

/-- `WorkflowBuilder.build_hooks` -/
def buildHooks (built : Built) : Building (List Element × List Element) := do
  let initialPrevious := (← get).previous
  let failure ← failureCanvas installation built
  let success ← successCanvas installation built
  setPrevious initialPrevious
  return (failure,success)

/-- `WorkflowBuilder.run` -/
def run (built : Built) : Building Unit := do
  let id ← uuid
  let (failure,success) ← buildHooks installation built
  try applyAsync installation (.chain id built.canvas success failure)
  catch raised =>
    saveStatus .error
    throw raised

/-- The row that `execute_workflow` saves first. -/
def Order.row (template : Option TemplateId) (isManager : Bool) : Launched :=
  { owner := order.username, userCode := order.userCode, payload := order.stored, template := template,
    isManager := isManager, platformTaskId := order.platformTaskId, crontabId := order.crontabId, status := .init }

/-- What `execute_workflow` does before it saves the workflow: the definition and the row to save. -/
def lookUp : Except Raised (Yaml × Launched) := do
  installation.user order.username
  let definition ← installation.definition order.userCode
  installation.space order.spaceCode
  let template ← installation.template (spaceLessUserCode order.userCode) order.spaceCode
  let flag ← isManager definition
  let isManager ← installation.boolean flag
  return (definition,order.row template isManager)

/-- What `execute_workflow` does after it has saved the workflow. -/
def dispatch (definition : Yaml) : Building Unit := do
  let version ← attempt (dictGet "version" definition)
  if version.any (Yaml.isStr "2") then
    applyAsync installation (.executeWorkflowV2 installation.workflowId order.context)
  else
    let built ← build installation.objects definition installation.workflowId order.stored order.context
    run installation built

/-- `execute_workflow` -/
def executeWorkflow : Building Unit := do
  let (definition,row) ← attempt (lookUp installation order)
  modify fun draft => {draft with workflow := some row}
  dispatch installation order definition

end launch

section keeps
variable {objects : Objects} {job : Job} {isHook : Bool}

theorem newTask_keeps (single : Bool) (taskName : Yaml) : Keeps Draft.workflow (newTask job isHook single taskName) := by
  intro draft
  cases taskName with
  | str name => cases single <;> rfl
  | map entries => rfl
  | seq items => rfl
  | other content => rfl

theorem newTasks_keeps (names : List Yaml) : Keeps Draft.workflow (newTasks job isHook names) := by
  induction names with
  | nil => exact .pure _
  | cons name rest ih => exact .bind (newTask_keeps false name) fun _ => .bind ih fun _ => .pure _

theorem setPrevious_keeps (previous : Option (List CeleryId)) : Keeps Draft.workflow (setPrevious previous) := fun _ => rfl

theorem uuid_keeps : Keeps Draft.workflow uuid := fun _ => rfl

theorem parseTask_keeps (task : Yaml) : Keeps Draft.workflow (parseTask objects job isHook task) := by
  cases task with
  | str name => exact .bind (newTask_keeps true _) fun _ => .pure _
  | seq items => exact .throw _
  | other content => exact .throw _
  | map entries =>
    cases entries with
    | nil => exact .throw _
    | cons pair rest =>
      have group : Keeps Draft.workflow (do
          let tasks ← attempt (item "tasks" pair.2)
          let names ← attempt (objects.iter tasks)
          let members ← newTasks job isHook names
          let id ← uuid
          setPrevious (some (members.map Signature.id))
          return Element.group id none members : Building Element) :=
        .bind (.attempt _) fun _ => .bind (.attempt _) fun _ => .bind (newTasks_keeps _) fun _ =>
          .bind uuid_keeps fun _ => .bind (setPrevious_keeps _) fun _ => .pure _
      refine .bind (.attempt _) fun typed => .ite ?_ group
      exact .bind (.attempt _) fun kind => .ite (.bind (.throw _) fun _ => group) group

theorem parseFlatTasks_keeps (tasks : List Yaml) : Keeps Draft.workflow (parseFlatTasks objects job isHook tasks) := by
  induction tasks with
  | nil => exact .pure _
  | cons task rest ih => exact .bind (parseTask_keeps task) fun _ => .bind ih fun _ => .pure _

theorem addBeforeStart_keeps (beforeStart : Option Yaml) (canvas : List Element) :
    Keeps Draft.workflow (addBeforeStart objects job beforeStart canvas) := by
  unfold addBeforeStart
  cases objects.hook beforeStart with
  | none => exact .pure _
  | some hook =>
    exact .bind .get fun _ => .bind (setPrevious_keeps _) fun _ => .bind (parseFlatTasks_keeps _) fun _ =>
      .bind (setPrevious_keeps _) fun _ => .pure _

theorem build_keeps (definition : Yaml) (workflow : WorkflowId) (payload : Json) (context : Context) :
    Keeps Draft.workflow (build objects definition workflow payload context) := by
  refine .bind (setPrevious_keeps _) fun _ => .bind (.attempt _) fun _ => .bind (.attempt _) fun _ =>
    .bind (.attempt _) fun _ => .bind (.attempt _) fun _ => .bind (.attempt _) fun _ => .bind (.attempt _) fun queues => ?_
  exact .bind (.attempt _) fun _ => .bind (.attempt _) fun _ => .bind (parseFlatTasks_keeps _) fun _ =>
    .bind (addBeforeStart_keeps _ _) fun _ => .pure _

theorem failureCanvas_keeps (installation : Installation) (built : Built) :
    Keeps Draft.workflow (failureCanvas installation built) := by
  unfold failureCanvas
  cases installation.objects.hook built.failureHook with
  | none => exact .pure _
  | some hook => exact .bind (setPrevious_keeps _) fun _ => .pure _

theorem successCanvas_keeps (installation : Installation) (built : Built) :
    Keeps Draft.workflow (successCanvas installation built) := by
  unfold successCanvas
  cases installation.objects.hook built.successHook with
  | none => exact .pure _
  | some hook => exact .bind (parseFlatTasks_keeps _) fun _ => .pure _

theorem buildHooks_keeps (installation : Installation) (built : Built) :
    Keeps Draft.workflow (buildHooks installation built) :=
  .bind .get fun _ => .bind (failureCanvas_keeps installation built) fun _ =>
    .bind (successCanvas_keeps installation built) fun _ => .bind (setPrevious_keeps _) fun _ => .pure _

end keeps

section outcome
variable {objects : Objects} {definition : Yaml} {workflow : WorkflowId} {payload : Json} {context : Context}
  {draft after : Draft} {built : Built}

/-- A builder that returned has read all of the definition, and its parser took the tasks and the hook. -/
theorem build_returned (done : (build objects definition workflow payload context).run draft = .ok built after) :
    ∃ described : Described objects definition, Accepted objects described.entries ∧
      Accepted objects described.hook.toList ∧ built.job = described.job workflow payload context ∧
      built.failureHook = described.failure ∧ built.successHook = described.success := by
  unfold build at done
  obtain ⟨_,_,_,done⟩ := bind_returned done
  obtain ⟨queue,read,done⟩ := attempt_bind_returned done
  obtain ⟨tasks,listed,done⟩ := attempt_bind_returned done
  obtain ⟨failure,onFailure,done⟩ := attempt_bind_returned done
  obtain ⟨success,onSuccess,done⟩ := attempt_bind_returned done
  obtain ⟨beforeStart,before,done⟩ := attempt_bind_returned done
  obtain ⟨⟨queue,customQueues⟩,parsed,done⟩ := attempt_bind_returned done
  obtain ⟨imports,imported,done⟩ := attempt_bind_returned done
  obtain ⟨entries,iterated,done⟩ := attempt_bind_returned done
  obtain ⟨canvas,middle,parses,done⟩ := bind_returned done
  obtain ⟨whole,_,adds,done⟩ := bind_returned done
  cases done
  refine ⟨⟨queue,customQueues,tasks,entries,failure,success,beforeStart,imports,?_,listed,iterated,onFailure,onSuccess,
    before,imported⟩,⟨_,_,_,_,_,parses⟩,?_,rfl,rfl,rfl⟩
  · rw [read]
    exact parsed
  · change Accepted objects (objects.hook beforeStart).toList
    unfold addBeforeStart at adds
    cases set : objects.hook beforeStart with
    | none => exact ⟨⟨workflow,payload,context,queue,customQueues,imports⟩,true,middle,[],middle,rfl⟩
    | some hook =>
      rw [set] at adds
      obtain ⟨_,_,_,adds⟩ := bind_returned adds
      obtain ⟨_,_,_,adds⟩ := bind_returned adds
      obtain ⟨_,_,parses,_⟩ := bind_returned adds
      exact ⟨_,_,_,_,_,parses⟩

theorem successCanvas_run {installation : Installation} (taken : ∀ hook, installation.objects.hook built.successHook = some hook →
    (installation.objects.names hook).isSome = true) :
    ∃ (hooks : List (Stage installation.objects built.job true)) (canvas : List Element) (after : Draft),
      (successCanvas installation built).run draft = .ok canvas after ∧
      hooks.map Stage.entry = (installation.objects.hook built.successHook).toList ∧
      after.rows = draft.rows ++ hooks.flatMap Stage.rows ∧ after.workflow = draft.workflow := by
  unfold successCanvas
  cases set : installation.objects.hook built.successHook with
  | none => exact ⟨[],[],draft,rfl,rfl,(List.append_nil _).symm,rfl⟩
  | some hook =>
    have each : ∀ task ∈ [hook], (installation.objects.names task).isSome = true := by
      intro task among
      rw [List.mem_singleton.mp among]
      exact taken hook set
    obtain ⟨stages,after,done,entries,parsed⟩ := @parseFlatTasks_run _ built.job true draft _ each
    exact ⟨stages,_,after,bind_run done,entries,parsed.rows,parsed.workflow⟩

theorem successCanvas_returned {installation : Installation} {canvas : List Element}
    (done : (successCanvas installation built).run draft = .ok canvas after) {hook : Yaml}
    (set : installation.objects.hook built.successHook = some hook) : (installation.objects.names hook).isSome = true := by
  unfold successCanvas at done
  rw [set] at done
  obtain ⟨_,_,parses,_⟩ := bind_returned done
  exact parseFlatTasks_returns_iff.mp ⟨_,_,parses⟩ hook (List.mem_singleton_self hook)

theorem failureCanvas_run (installation : Installation) : ∃ (canvas : List Element) (after : Draft),
    (failureCanvas installation built).run draft = .ok canvas after ∧ after.rows = draft.rows ∧ after.workflow = draft.workflow := by
  unfold failureCanvas
  cases installation.objects.hook built.failureHook with
  | none => exact ⟨_,draft,rfl,rfl,rfl⟩
  | some hook => exact ⟨_,_,rfl,rfl,rfl⟩

/-- Building the hooks adds the rows of the success hook. -/
theorem buildHooks_run {installation : Installation} (taken : ∀ hook, installation.objects.hook built.successHook = some hook →
    (installation.objects.names hook).isSome = true) :
    ∃ (hooks : List (Stage installation.objects built.job true)) (canvases : List Element × List Element) (after : Draft),
      (buildHooks installation built).run draft = .ok canvases after ∧
      hooks.map Stage.entry = (installation.objects.hook built.successHook).toList ∧
      after.rows = draft.rows ++ hooks.flatMap Stage.rows ∧ after.workflow = draft.workflow := by
  obtain ⟨failure,middle,first,rows,workflow⟩ := @failureCanvas_run draft built installation
  obtain ⟨hooks,success,after,second,entries,added,same⟩ := @successCanvas_run middle _ _ taken
  refine ⟨hooks,(failure,success),{after with previous := draft.previous},?_,entries,added.trans (by rw [rows]),same.trans workflow⟩
  exact (bind_run first).trans ((bind_run second).trans rfl)

theorem buildHooks_returned {installation : Installation} {canvases : List Element × List Element}
    (done : (buildHooks installation built).run draft = .ok canvases after) {hook : Yaml}
    (set : installation.objects.hook built.successHook = some hook) : (installation.objects.names hook).isSome = true := by
  obtain ⟨_,_,_,done⟩ := bind_returned done
  obtain ⟨_,_,_,done⟩ := bind_returned done
  obtain ⟨_,_,success,_⟩ := bind_returned done
  exact successCanvas_returned success set

end outcome

/-- The draft before a launch; its first id is a fresh one. -/
def untouched (first : CeleryId) : Draft := ⟨none,[],[],first,none⟩

/-- A launch that raised after it had saved its workflow left neither that nor a task of it waiting to run. -/
def LeavesNothingPending (result : EStateM.Result Raised Draft Unit) : Prop :=
  ∀ raised after row, result = .error raised after → after.workflow = some row →
    row.status ≠ .init ∧ row.status ≠ .progress ∧ ∀ task ∈ after.rows, task.status ≠ .init

/-- Everything that a launch looks up before it saves the workflow is there. -/
structure Saves (installation : Installation) (order : Order) (definition : Yaml) : Prop where
  user : installation.user order.username = .ok ()
  found : installation.definition order.userCode = .ok definition
  space : installation.space order.spaceCode = .ok ()
  template : ∃ template, installation.template (spaceLessUserCode order.userCode) order.spaceCode = .ok template
  manager : ∃ flag value, isManager definition = .ok flag ∧ installation.boolean flag = .ok value

def version2 (definition : Yaml) : Bool := (definition.get "version").any (Yaml.isStr "2")

/-- The tasks of a definition, its hook before the start and its success hook. -/
def Described.all {objects : Objects} {definition : Yaml} (described : Described objects definition) : List Yaml :=
  described.entries ++ described.hook.toList ++ (objects.hook described.success).toList

/-- A version-2 definition needs the broker. A version-1 definition has to be one that the builder takes, with its
hooks; and if the broker does not take the chain, it has to be one without task names. -/
def Sound (installation : Installation) (definition : Yaml) : Prop :=
  if version2 definition then installation.accepts = true
  else ∃ described : Described installation.objects definition,
    (∀ task ∈ described.all, (installation.objects.names task).isSome = true) ∧
    (installation.accepts = true ∨ ∀ task ∈ described.all, installation.objects.names task = some [])

section pending
variable {installation : Installation} {order : Order} {definition : Yaml} {first : CeleryId} {draft : Draft} {row : Launched}

theorem described_all {objects : Objects} (one two : Described objects definition) : one.all = two.all := by
  have tasks := Except.ok.inj (one.listed.symm.trans two.listed)
  have entries : one.entries = two.entries := by
    have same := one.iterated
    rw [tasks,two.iterated] at same
    exact (Except.ok.inj same).symm
  have success := Except.ok.inj (one.onSuccess.symm.trans two.onSuccess)
  have before := Except.ok.inj (one.before.symm.trans two.before)
  unfold Described.all Described.hook
  rw [entries,success,before]

theorem rows_pending {objects : Objects} {job : Job} {isHook : Bool} (stages : List (Stage objects job isHook)) :
    (∀ task ∈ stages.flatMap Stage.rows, task.status ≠ .init) ↔
      ∀ entry ∈ stages.map Stage.entry, objects.names entry = some [] := by
  constructor
  · intro none entry among
    obtain ⟨stage,member,rfl⟩ := List.mem_map.mp among
    have empty : stage.rows = [] := by
      apply List.eq_nil_iff_forall_not_mem.mpr
      intro task own
      exact none task (List.mem_flatMap.mpr ⟨stage,member,own⟩) (stage.fresh task own).2.2.1
    rw [stage.named,empty]
    rfl
  · intro empty task among
    obtain ⟨stage,member,own⟩ := List.mem_flatMap.mp among
    have named := empty stage.entry (List.mem_map_of_mem member)
    rw [stage.named,Option.some.injEq,List.map_eq_nil_iff] at named
    rw [named] at own
    cases own

/-- What raises while the workflow is still in its first status breaks the promise. -/
theorem pending_init {raised : Raised} {after : Draft} (kept : after.workflow = some row) (waiting : row.status = .init) :
    ¬LeavesNothingPending (.error raised after) := fun clean => (clean raised after row rfl kept).1 waiting

/-- A builder that raises leaves the workflow waiting, and no definition that it takes makes it raise. -/
theorem build_raised {raised : Raised} {after : Draft} (saved : draft.workflow = some row) (waiting : row.status = .init)
    (failed : (build installation.objects definition installation.workflowId order.stored order.context).run draft =
      .error raised after) :
    ¬LeavesNothingPending (.error raised after) ∧
      ∀ described : Described installation.objects definition,
        ¬∀ task ∈ described.all, (installation.objects.names task).isSome = true := by
  have kept := @build_keeps installation.objects definition installation.workflowId order.stored order.context draft
  rw [failed] at kept
  refine ⟨pending_init (kept.trans saved) waiting,fun described taken => ?_⟩
  have tasks : Accepted installation.objects described.entries := by
    refine ⟨described.job 0 .null order.context,false,draft,parseFlatTasks_returns fun task among => ?_⟩
    exact taken task (List.mem_append_left _ (List.mem_append_left _ among))
  have hook : Accepted installation.objects described.hook.toList := by
    refine ⟨described.job 0 .null order.context,false,draft,parseFlatTasks_returns fun task among => ?_⟩
    exact taken task (List.mem_append_left _ (List.mem_append_right _ among))
  obtain ⟨built,last,_,_,done,_⟩ := @build_mirrors _ _ installation.workflowId order.stored
    order.context described tasks hook draft
  cases done.symm.trans failed

/-- Hooks that cannot be built leave the workflow waiting. -/
theorem buildHooks_raised {built : Built} {raised : Raised} {after : Draft} (saved : draft.workflow = some row)
    (waiting : row.status = .init) (failed : (buildHooks installation built).run draft = .error raised after) :
    ¬LeavesNothingPending (.error raised after) ∧
      ¬∀ hook, installation.objects.hook built.successHook = some hook → (installation.objects.names hook).isSome = true := by
  have kept := buildHooks_keeps installation built draft
  rw [failed] at kept
  refine ⟨pending_init (kept.trans saved) waiting,fun taken => ?_⟩
  obtain ⟨_,_,_,done,_⟩ := @buildHooks_run draft _ _ taken
  cases done.symm.trans failed

/-- The guard of `run` closes the workflow; the tasks stay as the builder saved them. -/
theorem run_sends {built : Built} {canvases : List Element × List Element} {after : Draft}
    (hooks : (buildHooks installation built).run {draft with uuids := draft.uuids + 1} = .ok canvases after)
    (saved : after.workflow = some row) :
    (installation.accepts = true → ∃ last, (run installation built).run draft = .ok () last) ∧
    (installation.accepts = false → ∃ last, (run installation built).run draft = .error .operationalError last ∧
      last.rows = after.rows ∧ last.workflow = some {row with status := .error}) := by
  obtain ⟨failure,success⟩ := canvases
  have drawn : uuid.run draft = .ok draft.uuids {draft with uuids := draft.uuids + 1} := rfl
  have whole : (run installation built).run draft =
      EStateM.run (tryCatch (applyAsync installation (.chain draft.uuids built.canvas success failure)) fun raised => do
        saveStatus .error
        throw raised) after := (bind_run drawn).trans (bind_run hooks)
  constructor
  · intro accepts
    refine ⟨{after with sent := after.sent ++ [.chain draft.uuids built.canvas success failure]},whole.trans ?_⟩
    unfold applyAsync
    rw [if_pos accepts]
    rfl
  · intro refused
    refine ⟨{after with workflow := some {row with status := .error}},whole.trans ?_,rfl,rfl⟩
    unfold applyAsync
    rw [if_neg (by rw [refused]; exact Bool.false_ne_true)]
    change EStateM.Result.error Raised.operationalError {after with workflow := after.workflow.map _} = _
    rw [saved]
    rfl

theorem dispatch_leaves_nothing_iff (saved : draft.workflow = some row) (waiting : row.status = .init) (empty : draft.rows = [])
    (mapping : ∃ entries, definition = .map entries) :
    LeavesNothingPending ((dispatch installation order definition).run draft) ↔ Sound installation definition := by
  obtain ⟨entries,rfl⟩ := mapping
  unfold dispatch Sound
  rw [bind_run (attempt_ok (show dictGet "version" (.map entries) = .ok ((Yaml.map entries).get "version") from rfl))]
  change LeavesNothingPending (EStateM.run (if version2 (.map entries) = true then _ else _) draft) ↔
    if version2 (.map entries) = true then _ else _
  cases version2 (.map entries) with
  | true =>
    rw [if_pos rfl,if_pos rfl]
    unfold applyAsync
    cases accepts : installation.accepts with
    | true =>
      refine iff_of_true ?_ rfl
      intro raised after row failed
      cases failed
    | false => exact iff_of_false (pending_init saved waiting) Bool.false_ne_true
  | false =>
    rw [if_neg Bool.false_ne_true,if_neg Bool.false_ne_true]
    cases builds : (build installation.objects (.map entries) installation.workflowId order.stored order.context).run draft with
    | error raised after =>
      obtain ⟨pending,refused⟩ := @build_raised _ _ (.map entries) _ _ _ _ saved waiting builds
      rw [bind_raises builds]
      exact iff_of_false pending fun ⟨described,taken,_⟩ => refused described taken
    | ok built middle =>
      obtain ⟨described,tasks,hook,job,failureHook,successHook⟩ := build_returned builds
      obtain ⟨built',after',stages,hooks,done,mirrors⟩ := @build_mirrors _ _ installation.workflowId
        order.stored order.context described tasks hook draft
      obtain ⟨rfl,rfl⟩ : built = built' ∧ middle = after' := by simpa using builds.symm.trans done
      have kept := @build_keeps installation.objects (.map entries) installation.workflowId order.stored order.context draft
      rw [builds] at kept
      rw [bind_run builds]
      have stays : middle.workflow = some row := kept.trans saved
      cases ran : (buildHooks installation built).run {middle with uuids := middle.uuids + 1} with
      | error raised after =>
        obtain ⟨pending,refused⟩ := @buildHooks_raised _ {middle with uuids := middle.uuids + 1} _ _ _ _ stays waiting ran
        have fails : (run installation built).run middle = .error raised after :=
          (bind_run (show uuid.run middle = .ok middle.uuids {middle with uuids := middle.uuids + 1} from rfl)).trans
            (bind_raises ran)
        rw [fails]
        refine iff_of_false pending fun ⟨other,taken,_⟩ => refused fun hook set => ?_
        apply taken hook
        rw [described_all other described]
        rw [successHook] at set
        exact List.mem_append_right _ (by rw [set]; exact List.mem_singleton_self hook)
      | ok canvases after =>
        have taken : ∀ task ∈ described.all, (installation.objects.names task).isSome = true := by
          intro task among
          rcases List.mem_append.mp among with among | among
          · rcases List.mem_append.mp among with among | among
            · exact accepted_names tasks task among
            · exact accepted_names hook task among
          · apply buildHooks_returned ran
            rw [successHook]
            exact Option.mem_toList.mp among
        obtain ⟨success,canvases',after',runs,entries,rows,same⟩ := @buildHooks_run
          {middle with uuids := middle.uuids + 1} _ _ (fun hook set => buildHooks_returned ran set)
        obtain ⟨rfl,rfl⟩ : canvases = canvases' ∧ after = after' := by simpa using ran.symm.trans runs
        obtain ⟨sends,refuses⟩ := @run_sends _ _ row _ _ _ ran (same.trans stays)
        cases accepts : installation.accepts with
        | true =>
          obtain ⟨last,sent⟩ := sends accepts
          rw [sent]
          refine iff_of_true ?_ ⟨described,taken,.inl rfl⟩
          intro raised last row failed
          cases failed
        | false =>
          obtain ⟨last,failed,written,closed⟩ := refuses accepts
          rw [failed]
          have every : (∀ task ∈ last.rows, task.status ≠ .init) ↔
              ∀ task ∈ described.all, installation.objects.names task = some [] := by
            rw [written,rows,mirrors.rows,empty,List.nil_append]
            simp only [List.forall_mem_append,rows_pending,mirrors.entries,mirrors.hook,entries,successHook,Described.all]
          constructor
          · intro clean
            exact ⟨described,taken,.inr (every.mp (clean _ _ _ rfl closed).2.2)⟩
          · rintro ⟨other,_,sound⟩ raised after found result there
            cases result
            obtain rfl := Option.some.inj (closed.symm.trans there)
            refine ⟨WorkflowStatus.noConfusion,WorkflowStatus.noConfusion,every.mpr ?_⟩
            rw [described_all described other]
            exact sound.resolve_left Bool.false_ne_true

/-- What `execute_workflow` reads before it saves comes from a mapping. -/
theorem isManager_mapping {flag : Yaml} (read : isManager definition = .ok flag) : ∃ entries, definition = .map entries := by
  cases definition with
  | map entries => exact ⟨entries,rfl⟩
  | str text => cases read
  | seq items => cases read
  | other content => cases read

theorem lookUp_saves (found : lookUp installation order = .ok (definition,row)) :
    Saves installation order definition ∧ row.status = .init := by
  obtain ⟨_,user,found⟩ := except_bind found
  obtain ⟨_,definition',found⟩ := except_bind found
  obtain ⟨_,space,found⟩ := except_bind found
  obtain ⟨template,known,found⟩ := except_bind found
  obtain ⟨flag,read,found⟩ := except_bind found
  obtain ⟨value,boolean,found⟩ := except_bind found
  cases found
  exact ⟨⟨user,definition',space,⟨template,known⟩,⟨flag,value,read,boolean⟩⟩,rfl⟩

theorem saves_lookUp (saves : Saves installation order definition) : ∃ row, lookUp installation order = .ok (definition,row) := by
  obtain ⟨template,known⟩ := saves.template
  obtain ⟨flag,value,read,boolean⟩ := saves.manager
  refine ⟨order.row template value,?_⟩
  unfold lookUp
  rw [saves.user,saves.found,saves.space,known]
  change (isManager definition).bind _ = _
  rw [read]
  change (installation.boolean flag).bind _ = _
  rw [boolean]
  rfl

/-- A launch leaves nothing pending exactly when the definition that it finds is sound for the broker. -/
theorem launch_leaves_nothing_iff (installation : Installation) (order : Order) (first : CeleryId) :
    LeavesNothingPending ((executeWorkflow installation order).run (untouched first)) ↔
      ∀ definition, Saves installation order definition → Sound installation definition := by
  unfold executeWorkflow
  cases looked : lookUp installation order with
  | error raised =>
    rw [bind_raises (attempt_error rfl)]
    refine iff_of_true ?_ fun definition saves => ?_
    · intro raised after row failed there
      cases failed
      cases there
    · obtain ⟨row,found⟩ := saves_lookUp saves
      cases looked.symm.trans found
  | ok pair =>
    obtain ⟨definition,row⟩ := pair
    obtain ⟨saves,waiting⟩ := lookUp_saves looked
    obtain ⟨flag,_,read,_⟩ := saves.manager
    have sound := @dispatch_leaves_nothing_iff installation order _ {untouched first with workflow := some row}
      _ rfl waiting rfl (isManager_mapping read)
    rw [bind_run (attempt_ok rfl)]
    refine sound.trans ⟨fun whole other found => ?_,fun each => each definition saves⟩
    rw [← Except.ok.inj (saves.found.symm.trans found.found)]
    exact whole

end pending

section counterexample

/-- An installation that finds one definition, with a broker that is down. -/
def brokerDown (definition : Yaml) : Installation where
  objects := noObjects
  user := fun _ => .ok ()
  definition := fun _ => .ok definition
  space := fun _ => .ok ()
  template := fun _ _ => .ok none
  boolean := fun _ => .ok false
  workflowId := 7
  accepts := false

def groupOrder : Order := ⟨"user","space00000.example.GROUP",none,some "realm00000","space00000",none,none⟩

/-- The broker refuses a version-1 chain: the workflow is closed, and its tasks stay as they were saved. -/
theorem tasks_left_waiting :
    ¬LeavesNothingPending ((executeWorkflow (brokerDown groupDefinition) groupOrder).run (untouched 0)) := by
  intro clean
  have wrong := (clean .operationalError _ _ rfl rfl).2.2 _ List.mem_cons_self
  exact wrong rfl

end counterexample

end FinmarsWorkflow.Build
