import FinmarsWorkflow.Interleave.Stores
import FinmarsWorkflow.Links
import FinmarsWorkflow.Python.Text

/-! Workers and web processes that are shared by all spaces.
Every space has a schema of its own, and a process works in the schema that its
connection has as search path. A handler sets it from the context of its message
before it touches a row; the middleware sets it from the path of a request. Both
leave `public` behind. -/
namespace FinmarsWorkflow.Tenancy
open Interleave Python

/-- The codes of the spaces in the table of a schema. -/
abbrev Codes := SpaceId → String

/-- What the processes find: whether a schema exists and whether its lowered name does, the definitions
that a process has not loaded yet, and for each space those in its storage, the codes in its table and
the path of its requests. -/
structure Site where
  schemaExists : String → Bool
  known : String → Bool
  missing : String → Bool
  definitions : String → Definitions
  codes : String → Codes
  pathInfo : String → String

abbrev Tenanted (α : Type) := Roaming String Codes Db Operation Outside Error α

/-- `SET search_path TO`, with a schema in lower case: PostgreSQL folds what has no quotes. -/
def setSearchPath (schema : String) : Tenanted Unit := .step (.select schema) (fun _ _ => .pure ())

/-- `context` in the arguments of a Celery task. -/
structure Context where
  spaceCode : Option String

/-- `set_schema_from_context` -/
def setSchemaFromContext (site : Site) : Option Context → Tenanted Unit
  | none => .raise (.of "No context in kwargs")
  | some context => match context.spaceCode.filter (· != "") with
    | none => .raise (.of "No space_code in context")
    | some code => if site.schemaExists code then setSearchPath code
        else .raise (.of "No space_code in database schemas")

/-- `user_code.split(".")[0]` -/
def spaceOf (userCode : String) : String := (split '.' userCode).headD ""

/-- `get_by_user_code`, as far as it sets the search path: a definition that the process has not
loaded makes it register the workflows of the space that the user code begins with. -/
def getByUserCode (site : Site) (userCode : String) : Tenanted Unit :=
  if site.missing userCode then
    if site.known (spaceOf userCode) then setSearchPath (spaceOf userCode)
      else .raise (.of ("Schema '" ++ spaceOf userCode ++ "' does not exist"))
  else .pure ()

/-- A workflow row with the code of its space. -/
def withWorkflow {α : Type} (id : WorkflowId) (rest : Workflow → String → Tenanted α) : Tenanted α :=
  .step (.act .read) fun (db,codes) _ => (Program.lift (db.getWorkflow id)).bind (fun row => rest row (codes row.space))

/-- A message with a context, to the broker that all spaces share. -/
def applyAsync (code : String) (message : Message) : Tenanted Unit :=
  .step (.direct code (.send message)) (fun _ _ => .pure ())

def dispatch (code : String) : List Message → Tenanted Unit
  | [] => .pure ()
  | message::rest => do
    applyAsync code message
    dispatch code rest

section handlers
variable (site : Site)

/-- `execute_workflow_step` -/
def executeWorkflowStep (definitions : Definitions) (code : String) (id : TaskId) (task : Task) (kwargs : Kwargs) :
    Tenanted Json := do
  setSchemaFromContext site (some ⟨some code⟩)
  let workflow ← (fetch (·.getWorkflow task.workflow)).here
  if runsSourceCode task then
    (userCode id task kwargs).here
  else
    let target := targetWorkflowUserCode task.name
    getByUserCode site (code ++ "." ++ target)
    let version ← .lift (definitions workflow.space target)
    if version = 2 then
      let template ← (fetch (·.templateByUserCode target workflow.space)).here
      let child ← Program.here <| createWorkflow
        { status := .init, workflowTemplate := some template.1, currentNodeId := none,
          lastTaskOutput := none, nodeId := task.nodeId, userCode := target,
          payload := workflowPayload kwargs.payload, platformTaskId := none,
          space := workflow.space, finishedAt := false, parent := some task.workflow }
      applyAsync code (.executeWorkflowV2 child)
      (saveTask id {task with status := .nestedProgress}).here
      return .null
    else
      (userCode id task kwargs).here

/-- `Task.handle_task_success` -/
def handleTaskSuccess : Nat → TaskId → Task → Json → Tenanted Unit
  | 0,_,_,_ => .raise recursionError
  | depth+1,id,self,retval =>
    if self.status = .nestedProgress then
      .pure ()
    else do
      let self := self.succeeded retval
      (saveTask id self).here
      withWorkflow self.workflow fun workflow code =>
        if workflow.workflowTemplate.isNone then
          .pure ()
        else do
          let g ← (fetch (·.templateData workflow)).here
          let next ← .lift (successors g self.nodeId retval)
          if next.isEmpty then
            (saveWorkflow self.workflow (workflow.completed self.nodeId retval)).here
            match workflow.parent with
            | none => .pure ()
            | some parent =>
              let (parentId,parentTask) ← (fetch (·.parentTask parent workflow.nodeId workflow.space)).here
              handleTaskSuccess depth parentId {parentTask with status := .progress} retval
          else
            dispatch code (processMessages g self.workflow next)

/-- `BaseTask.on_success` -/
def onSuccess (code : String) (celery : CeleryId) (retval : Json) : Tenanted Unit := do
  setSchemaFromContext site (some ⟨some code⟩)
  let ((id,task),depth) ← Program.here <|
    fetch fun db => (db.taskByCeleryId celery).map (fun found => (found,db.workflows.length))
  handleTaskSuccess depth id task retval

/-- `on_failure` -/
def onFailure (code : String) (celery : CeleryId) (error : Error) : Tenanted Unit := do
  setSchemaFromContext site (some ⟨some code⟩)
  (FinmarsWorkflow.onFailure celery error).here

/-- `signature.apply()`. The tracer ends with `task_postrun`, whose receiver `cleanup` leaves `public`. -/
def applyStep (definitions : Definitions) (code : String) (celery : CeleryId) (kwargs : Kwargs) : Tenanted Unit :=
  Program.leaving "public" do
    let result ← Program.outcome do
      setSchemaFromContext site (some ⟨some code⟩)
      let (id,task) ← (beforeStart celery).here
      executeWorkflowStep site definitions code id task kwargs
    match result with
    | .error error => (onFailure site code celery error).attempt
    | .ok retval =>
      match ← (onSuccess site code celery retval).outcome with
      | .ok () => .pure ()
      | .error error =>
        (onFailure site code celery error).attempt
        .raise error

/-- `process_next_node`, with `cleanup` after it. -/
def processNextNode (definitions : Definitions) (context : Context) (job : Job) : Tenanted Unit :=
  Program.leaving "public" <| Program.attempt do
    setSchemaFromContext site (some context)
    withWorkflow job.workflow fun row code =>
      match job.graph.node? job.currentNodeId with
      | none => .raise (.of (Python.repr job.currentNodeId))
      | some node =>
        if row.status = .wait then
          (saveWorkflow job.workflow {row with currentNodeId := some job.currentNodeId}).here
        else do
          if ← (areInputsReady job.workflow (job.graph.inputNodes job.currentNodeId)).here then
            let output ← (previousOutput job node).here
            let payload ← (nodePayload job row node).here
            let celery ← (createTask (newTask job.workflow row node payload)).here
            applyStep site definitions code celery ⟨payload,output⟩

/-- `execute_workflow_v2`, with `cleanup` after it. It passes its own context on. -/
def executeWorkflowV2 (context : Context) (workflow : WorkflowId) : Tenanted Unit :=
  Program.leaving "public" <| Program.attempt do
    setSchemaFromContext site (some context)
    let row ← (fetch (·.getWorkflow workflow)).here
    (saveWorkflow workflow {row with status := .progress}).here
    let g ← (fetch (·.templateData row)).here
    let _ ← .lift g.adjacencyList
    dispatch (context.spaceCode.getD "") (g.startNodes.map (fun id => .processNextNode ⟨id,workflow,g⟩))

/-- `execute_workflow`, which sends the code of the request in the context. -/
def executeWorkflow (code userCode : String) (payload : Json) (space : SpaceId) (platformTaskId : Option Int) :
    Tenanted Unit := do
  getByUserCode site userCode
  let template ← Program.here <|
    query fun db => (db.templateByUserCode (spaceLessUserCode userCode) space).toOption.map Prod.fst
  let workflow ← Program.here <| createWorkflow
    { status := .init, workflowTemplate := template, currentNodeId := none, lastTaskOutput := none,
      nodeId := none, userCode := userCode, payload := workflowPayload payload,
      platformTaskId := platformTaskId, space := space, finishedAt := false, parent := none }
  applyAsync code (.executeWorkflowV2 workflow)

/-- `WorkflowViewSet.resume_workflow` -/
def resumeWorkflow (id : WorkflowId) (payload : Option Json) : Tenanted Response :=
  withWorkflow id fun workflow code =>
    if workflow.status = .wait then do
      if ← (query (·.hasActiveTasks id)).here then
        return ⟨400,"Cannot resume workflow while there are active tasks running."⟩
      else
        (saveWorkflow id (workflow.resumed payload)).here
        match workflow.currentNodeId.filter (· != "") with
        | none => return ⟨400,"No node to resume from."⟩
        | some node =>
          let g ← (fetch (·.templateData workflow)).here
          let _ ← .lift g.adjacencyList
          applyAsync code (.processNextNode ⟨node,id,g⟩)
          return ⟨200,"Workflow " ++ toString id ++ " resumed successfully."⟩
    else
      .pure ⟨400,"Cannot resume workflow that is not paused."⟩

/-- The view of a request, with the `space_code` that the middleware has set on it. -/
def respond (code : String) : Request → Tenanted Unit
  | .launch userCode payload space platformTaskId =>
    (executeWorkflow site code userCode payload space platformTaskId).attempt
  | .pause workflow => (pauseWorkflow workflow).attempt.here
  | .resume workflow payload => (resumeWorkflow workflow payload).attempt
  | .cancel workflow => (cancelWorkflow workflow).attempt.here
  | .updateTemplate template data => (FinmarsWorkflow.updateTemplate template data).attempt.here

/-- `RealmAndSpaceMiddleware`. A space without a schema is served in `public`, as is a path without a realm. -/
def realmAndSpaceMiddleware (pathInfo : String) (getResponse : String → Tenanted Unit) : Tenanted Unit :=
  match split '/' pathInfo with
  | _::realm::rest =>
    if contains "realm" realm then
      match rest with
      | code::_ => Program.leaving "public" do
        setSearchPath (if site.schemaExists code then code else "public")
        getResponse code
      | [] => .raise (.of "list index out of range")
    else
      Program.leaving "public" do
        setSearchPath "public"
        getResponse realm
  | _ => .raise (.of "list index out of range")

/-- What a thread of a space runs: a message is one whose context has the code of the space. -/
def handler (key : String) : Origin → Tenanted Unit
  | .message (.executeWorkflowV2 workflow) => executeWorkflowV2 site ⟨some key⟩ workflow
  | .message (.processNextNode job) => processNextNode site (site.definitions key) ⟨some key⟩ job
  | .request request => realmAndSpaceMiddleware site (site.pathInfo key) (fun code => respond site code request)

end handlers

/-- A space that is served: its schema is there, the spaces in its table carry its code, and its requests name it. -/
structure Site.Serves (site : Site) (key : String) : Prop where
  named : key ≠ ""
  whole : Without '.' key
  there : site.schemaExists key = true
  known : site.known key = true
  codes : ∀ space, site.codes key space = key
  path : ∃ lead realm rest, split '/' (site.pathInfo key) = lead::realm::key::rest ∧ contains "realm" realm = true

/-- A launch names a user code of the space that it is sent to. -/
def Fair (key : String) : Origin → Prop
  | .request (.launch userCode _ _ _) => spaceOf userCode = key
  | _ => True

section abides
variable {site : Site} {key path : String} {α γ : Type} {ends : String → Prop}

/-- A handler of a space, wherever its search path is set: it works in the schema of the space. -/
abbrev Stays (site : Site) (ends : String → Prop) (key path : String) (program : Tenanted α) (plain : Prog α) : Prop :=
  Abides key (site.codes key) ends path program plain

/-- The search path is the schema of the space. -/
abbrev At (key : String) : String → Prop := (· = key)

theorem stays_here (plain : Prog α) : Stays site (At key) key key plain.here plain := Abides.here plain rfl

/-- A step of a handler that is an operation of its own schema. -/
theorem stays_then {plain : Prog α} {next : α → Tenanted γ} {follows : α → Prog γ}
    (second : ∀ value, Stays site ends key key (next value) (follows value)) :
    Stays site ends key key (plain.here.bind next) (plain.bind follows) :=
  (stays_here plain).bind (fun _ value here => here ▸ second value)

theorem stays_lift {result : Except Error α} {next : α → Tenanted γ} {follows : α → Prog γ}
    (second : ∀ value, Stays site ends key key (next value) (follows value)) :
    Stays site ends key key ((Program.lift result).bind next) ((Program.lift result).bind follows) := by
  cases result with
  | ok value => exact second value
  | error error => exact .raise key error

theorem stays_set (serves : site.Serves key) {next : Unit → Tenanted α} {plain : Prog α}
    (second : Stays site ends key key (next ()) plain) :
    Stays site ends key path ((setSchemaFromContext site (some ⟨some key⟩)).bind next) plain := by
  have filtered : (some key).filter (· != "") = some key := Option.filter_some_eq_some.mpr (by simpa using serves.named)
  simp only [setSchemaFromContext,filtered,serves.there,if_true]
  exact .select path key _ _ (fun _ _ => second)

theorem stays_withWorkflow (serves : site.Serves key) {id : WorkflowId} {next : Workflow → String → Tenanted α}
    {follows : Workflow → Prog α} (second : ∀ row, Stays site ends key key (next row key) (follows row)) :
    Stays site ends key key (withWorkflow id next) ((fetch (·.getWorkflow id)).bind follows) := by
  refine .act _ _ _ (fun db _ => ?_)
  simp only [serves.codes]
  exact stays_lift second

theorem stays_send {message : Message} {next : Unit → Tenanted α} {follows : Unit → Prog α}
    (second : Stays site ends key key (next ()) (follows ())) :
    Stays site ends key key ((applyAsync key message).bind next) ((FinmarsWorkflow.applyAsync message).bind follows) :=
  .direct _ _ _ (fun _ _ => second)

theorem stays_dispatch (messages : List Message) :
    Stays site (At key) key key (dispatch key messages) (FinmarsWorkflow.dispatch messages) := by
  induction messages with
  | nil => exact .pure key () rfl
  | cons message rest ih => exact stays_send ih

theorem spaceOf_append (whole : Without '.' key) (rest : String) : spaceOf (key ++ "." ++ rest) = key := by
  have parts : split '.' (key ++ String.singleton '.' ++ rest) = key::split '.' rest := split_append whole
  have same : key ++ "." ++ rest = key ++ String.singleton '.' ++ rest := rfl
  rw [spaceOf,same,parts]
  rfl

/-- A user code of the space may be registered anew. -/
theorem stays_get (serves : site.Serves key) {userCode : String} (own : spaceOf userCode = key) {next : Unit → Tenanted α}
    {plain : Prog α} (second : Stays site ends key key (next ()) plain) :
    Stays site ends key key ((getByUserCode site userCode).bind next) plain := by
  unfold getByUserCode
  split
  · rw [own,if_pos serves.known]
    exact .select key key _ _ (fun _ _ => second)
  · exact second

theorem stays_step (serves : site.Serves key) (definitions : Definitions) (id : TaskId) (task : Task) (kwargs : Kwargs) :
    Stays site (At key) key path (executeWorkflowStep site definitions key id task kwargs)
      (FinmarsWorkflow.executeWorkflowStep definitions id task kwargs) := by
  refine stays_set serves (stays_then fun workflow => ?_)
  split
  · exact stays_here _
  · refine stays_get serves (spaceOf_append serves.whole _) (stays_lift fun version => ?_)
    split
    · refine stays_then fun template => stays_then fun child => stays_send (stays_then fun _ => ?_)
      exact .pure key _ rfl
    · exact stays_here _

theorem stays_handle (serves : site.Serves key) (depth : Nat) (id : TaskId) (self : Task) (retval : Json) :
    Stays site (At key) key key (handleTaskSuccess depth id self retval)
      (FinmarsWorkflow.handleTaskSuccess depth id self retval) := by
  induction depth generalizing id self with
  | zero => exact .raise key _
  | succ depth ih =>
    simp only [handleTaskSuccess,FinmarsWorkflow.handleTaskSuccess]
    split
    · exact .pure key () rfl
    · refine stays_then fun _ => stays_withWorkflow serves fun workflow => ?_
      split
      · exact .pure key () rfl
      · refine stays_then fun g => stays_lift fun next => ?_
        split
        · refine stays_then fun _ => ?_
          cases workflow.parent with
          | none => exact .pure key () rfl
          | some parent => exact stays_then fun found => ih found.1 _
        · exact stays_dispatch _

theorem stays_failure (serves : site.Serves key) (celery : CeleryId) (error : Error) :
    Stays site (At key) key path (onFailure site key celery error) (FinmarsWorkflow.onFailure celery error) :=
  stays_set serves (stays_here _)

theorem stays_success (serves : site.Serves key) (celery : CeleryId) (retval : Json) :
    Stays site (At key) key path (onSuccess site key celery retval) (FinmarsWorkflow.onSuccess celery retval) :=
  stays_set serves (stays_then fun _ => stays_handle serves _ _ _ _)

/-- Whatever the search path was, and although it is `public` in the end. -/
abbrev Anywhere (_ : String) : Prop := True

theorem stays_apply (serves : site.Serves key) (definitions : Definitions) (celery : CeleryId) (kwargs : Kwargs) :
    Stays site Anywhere key path (applyStep site definitions key celery kwargs)
      (FinmarsWorkflow.applyStep definitions celery kwargs) := by
  refine Abides.leaving (?_ : Stays site Anywhere key path _ _)
  have ran : Stays site (At key) key path
      (do
        setSchemaFromContext site (some ⟨some key⟩)
        let (id,task) ← (beforeStart celery).here
        executeWorkflowStep site definitions key id task kwargs)
      (do
        let (id,task) ← beforeStart celery
        FinmarsWorkflow.executeWorkflowStep definitions id task kwargs) :=
    stays_set serves (stays_then fun _ => stays_step serves definitions _ _ kwargs)
  refine ran.outcome.bind (fun path result _ => ?_)
  cases result with
  | error error => exact (stays_failure serves celery error).attempt
  | ok retval =>
    refine (stays_success serves celery retval).outcome.bind (fun path ended _ => ?_)
    cases ended with
    | ok => exact .pure path () trivial
    | error error => exact (stays_failure serves celery error).attempt.bind (fun path _ _ => .raise path error)

theorem stays_process (serves : site.Serves key) (definitions : Definitions) (job : Job) :
    Stays site Anywhere key path (processNextNode site definitions ⟨some key⟩ job)
      (FinmarsWorkflow.processNextNode definitions job) := by
  suffices ran : Stays site Anywhere key path _ _ from Abides.leaving ran.attempt
  refine stays_set serves (stays_withWorkflow serves fun row => ?_)
  cases job.graph.node? job.currentNodeId with
  | none => exact .raise key _
  | some node =>
    dsimp only
    split
    · exact (stays_here _).mono (fun _ _ => trivial)
    · refine stays_then fun ready => ?_
      split
      · exact stays_then fun output => stays_then fun payload => stays_then fun celery => stays_apply serves definitions _ _
      · exact .pure key () trivial

theorem stays_open (serves : site.Serves key) (workflow : WorkflowId) :
    Stays site Anywhere key path (executeWorkflowV2 site ⟨some key⟩ workflow) (FinmarsWorkflow.executeWorkflowV2 workflow) := by
  suffices ran : Stays site (At key) key path _ _ from Abides.leaving ran.attempt
  refine stays_set serves (stays_then fun row => stays_then fun _ => ?_)
  exact stays_then fun g => stays_lift fun _ => stays_dispatch _

theorem stays_respond (serves : site.Serves key) (request : Request) (fair : Fair key (.request request)) :
    Stays site Anywhere key key (respond site key request) request.program := by
  cases request with
  | launch userCode payload space platformTaskId =>
    suffices ran : Stays site (At key) key key _ _ from ran.attempt
    refine stays_get serves fair (stays_then fun template => stays_then fun workflow => ?_)
    exact .direct _ _ _ (fun _ _ => .pure key () rfl)
  | resume workflow payload =>
    suffices ran : Stays site (At key) key key _ _ from ran.attempt
    refine stays_withWorkflow serves fun row => ?_
    split
    · refine stays_then fun active => ?_
      split
      · exact .pure key _ rfl
      · refine stays_then fun _ => ?_
        cases row.currentNodeId.filter (· != "") with
        | none => exact .pure key _ rfl
        | some node => exact stays_then fun g => stays_lift fun _ => stays_send (.pure key _ rfl)
    · exact .pure key _ rfl
  | pause | cancel | updateTemplate => exact (stays_here _).mono (fun _ _ => trivial)

theorem stays_handler (serves : site.Serves key) (origin : Origin) (fair : Fair key origin) :
    Stays site Anywhere key path (handler site key origin) (origin.program (site.definitions key)) := by
  cases origin with
  | message message =>
    cases message with
    | executeWorkflowV2 workflow => exact stays_open serves workflow
    | processNextNode job => exact stays_process serves _ job
  | request request =>
    obtain ⟨lead,realm,rest,parts,named⟩ := serves.path
    simp only [handler,realmAndSpaceMiddleware,parts,named,serves.there,if_true]
    have answers (path : String) : Stays site Anywhere key path (.step (.select key) (fun _ _ => respond site key request)) request.program :=
      .select path key _ _ (fun _ _ => stays_respond serves request fair)
    exact (answers path).leaving

end abides

/-- The schemas of all spaces, with their templates and nothing else yet. -/
def start (templates : String → List WorkflowTemplate) : Cluster String Codes Db Operation Outside Error Origin :=
  ⟨fun key => (installed (templates key)).shared,fun _ => []⟩

/-- Workers and web processes are shared by all spaces, and each takes up its next message or request with whatever
search path the one before has left. The schema of every space that is served goes through a run of an installation
of its own, and no other schema is touched. -/
theorem spaces_apart (site : Site) (served : String → Prop) (serves : ∀ key, served key → site.Serves key)
    (templates : String → List WorkflowTemplate) (acts : List (Act String Outside Environment))
    (within : ∀ act ∈ acts, served act.key)
    (own : ∀ key userCode payload space platformTaskId path,
      .move key (.request (.launch userCode payload space platformTaskId)) path ∈ acts → spaceOf userCode = key)
    (last : Cluster String Codes Db Operation Outside Error Origin)
    (performed : (start templates).perform machine site.codes (handler site) acts = some last) :
    (∀ key, ¬served key → last.stores key = (installed (templates key)).shared) ∧
    ∀ key, served key → ∃ events reached, Execution (site.definitions key) anything (installed (templates key)) events reached ∧
      last.stores key = reached.shared ∧ (last.threads key).map Prod.fst = reached.threads.map Prod.fst := by
  have started (key : String) (environment : Environment) (path : String) (taken : .move key environment path ∈ acts) (db : Db)
      (origins : List Origin) (after : Db) (origin : Origin)
      (reacts : machine.react environment db origins = some (after,.spawn origin)) : Fair key origin := by
    obtain ⟨_,_,_,_,asked⟩ := react_queue reacts
    cases origin with
    | message => trivial
    | request request =>
      cases asked request rfl
      cases request with
      | launch userCode payload space platformTaskId => exact own key userCode payload space platformTaskId path taken
      | _ => trivial
  have coded (key : String) (there : served key) (path : String) (origin : Origin) (fair : Fair key origin) :
      Stays site Anywhere key path (handler site key origin) (origin.program (site.definitions key)) :=
    stays_handler (serves key there) origin fair
  obtain ⟨others,follows⟩ := perform_refines coded acts within started (fun _ => rfl) performed
  refine ⟨others,fun key there => ?_⟩
  obtain ⟨events,reached,run,matched⟩ := follows key there
  exact ⟨events,reached,run,matched.shared.symm,matched.origins.symm⟩

/-- Two spaces, none of whose definitions is loaded. -/
def twoSpaces : Site where
  schemaExists key := key == "space1" || key == "space2"
  known key := key == "space1" || key == "space2"
  missing _ := true
  definitions _ := versionOne
  codes key _ := key
  pathInfo key := "/realm0/" ++ key ++ "/api/workflow/"

/-- A template is launched in each of them, on processes that were left to the other one, and a worker
opens both workflows. -/
def bothLaunched : List (Act String Outside Environment) :=
  [.move "space1" (.request (.launch "space1.t" (.obj []) 0 none)) "space2",
    .move "space2" (.request (.launch "space2.t" (.obj []) 0 none)) "space1"] ++
  (List.replicate 6 [.advance "space1" 0 (.returns .null),.advance "space2" 0 (.returns .null)]).flatten ++
  [.close "space1" 0,.close "space2" 0,.move "space1" (.deliver 0) "space2",.move "space2" (.deliver 0) "space1"] ++
  (List.replicate 6 [.advance "space2" 0 (.returns .null),.advance "space1" 0 (.returns .null)]).flatten

/-- A launch is sent to the space of its user code. -/
def launchesOwn : Act String Outside Environment → Bool
  | .move key (.request (.launch userCode _ _ _)) _ => spaceOf userCode == key
  | _ => true

theorem twoSpaces_serves (key : String) (served : key = "space1" ∨ key = "space2") : twoSpaces.Serves key := by
  rcases served with rfl | rfl
  · exact ⟨by decide,by decide,rfl,rfl,fun _ => rfl,⟨"","realm0",["api","workflow",""],by decide,by decide⟩⟩
  · exact ⟨by decide,by decide,rfl,rfl,fun _ => rfl,⟨"","realm0",["api","workflow",""],by decide,by decide⟩⟩

theorem spaces_apart_two : ∃ last : Cluster String Codes Db Operation Outside Error Origin,
    (∀ key, ¬(key = "space1" ∨ key = "space2") → last.stores key = (installed [⟨"t",0,fork⟩]).shared) ∧
    (∀ key, key = "space1" ∨ key = "space2" →
      ∃ events reached, Execution versionOne anything (installed [⟨"t",0,fork⟩]) events reached ∧
        last.stores key = reached.shared ∧ (last.threads key).map Prod.fst = reached.threads.map Prod.fst) ∧
    (last.stores "space1").workflows.length = 1 ∧ (last.stores "space2").queue.length = 1 := by
  have computed : ((start (fun _ => [⟨"t",0,fork⟩])).perform machine twoSpaces.codes (handler twoSpaces) bothLaunched).any
      (fun last => (last.stores "space1").workflows.length == 1 && (last.stores "space2").queue.length == 1) = true := by decide
  obtain ⟨last,performed,found⟩ := (Option.any_eq_true _ _).mp computed
  simp only [Bool.and_eq_true,beq_iff_eq] at found
  have within : bothLaunched.all (fun act => act.key == "space1" || act.key == "space2") = true := by decide
  have own : bothLaunched.all launchesOwn = true := by decide
  obtain ⟨others,follows⟩ := spaces_apart twoSpaces (fun key => key = "space1" ∨ key = "space2") twoSpaces_serves
    (fun _ => [⟨"t",0,fork⟩]) bothLaunched (fun act among => by simpa using List.all_eq_true.mp within act among)
    (fun key userCode payload space platformTaskId path among => by simpa [launchesOwn] using List.all_eq_true.mp own _ among) last performed
  exact ⟨last,others,follows,found⟩

end FinmarsWorkflow.Tenancy
