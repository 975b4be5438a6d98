import FinmarsWorkflow.Requests

/-! The request that resumes a paused workflow, with its body.
`resume_workflow` refuses in four places. The last of them comes after the payload and the
status have been saved, so a workflow without a node to resume from is refused and started. -/
namespace FinmarsWorkflow
open Interleave

/-- The body of a request, as its parser leaves it: nothing that could be parsed, a JSON value, or a
form, of which only the field `payload` is read. -/
inductive Body where
  | malformed
  | json (value : Json)
  | form (payload : Option String)

section resume
variable (decode : String → Option Json)

/-- `ResumeWorkflowSerializer`: the validated payload, if the body is valid. A payload may be left out, but a JSON
body may not set it to null; that of a form is the text of a JSON value. -/
def Body.validated : Body → Option (Option Json)
  | .json (.obj fields) => match fields.lookup "payload" with
    | none => some none
    | some .null => none
    | some value => some (some value)
  | .form none => some none
  | .form (some text) => (decode text).map some
  | .malformed | .json _ => none

/-- `WorkflowViewSet.resume_workflow`, from the body on. -/
def resumeRequest (id : WorkflowId) (body : Body) : Prog Response :=
  match body.validated decode with
  | none => return ⟨400,"Validation error"⟩
  | some payload => resumeWorkflow id payload

/-- The run of a request that nothing else interferes with. -/
def resumes (outside : Outside) (id : WorkflowId) (body : Body) (db : Db) : Except Error Response × Db :=
  (resumeRequest decode id body).run Operation.effect outside db

/-- A refused request leaves the workflow and the queue alone, and a paused workflow that was resumed has a message for its node. -/
structure RefusesCleanly (outside : Outside) (id : WorkflowId) (body : Body) (db : Db) : Prop where
  refused : ∀ message, (resumes decode outside id body db).1 = .ok ⟨400,message⟩ →
    (resumes decode outside id body db).2.getWorkflow id = db.getWorkflow id ∧
      (resumes decode outside id body db).2.queue = db.queue
  resumed : ∀ row message, db.getWorkflow id = .ok row → row.status = .wait →
    (resumes decode outside id body db).1 = .ok ⟨200,message⟩ →
      ∃ call, (resumes decode outside id body db).2.queue = db.queue ++ [.processNextNode call]

end resume

section condition
variable {decode : String → Option Json} {outside : Outside} {id : WorkflowId} {body : Body} {db : Db} {row : Workflow}
  {payload : Option Json}

/-- The row of a workflow that is paused and idle, and has a node to go on from or has none. -/
def Workflow.nextNode (row : Workflow) : Option NodeId := row.currentNodeId.filter (· != "")

theorem resumes_invalid (invalid : body.validated decode = none) :
    resumes decode outside id body db = (.ok ⟨400,"Validation error"⟩,db) := by
  unfold resumes resumeRequest
  rw [invalid]
  rfl

theorem resumes_valid (valid : body.validated decode = some payload) :
    resumes decode outside id body db = (resumeWorkflow id payload).run Operation.effect outside db := by
  unfold resumes resumeRequest
  rw [valid]

theorem resume_missing {error : Error} (missing : db.getWorkflow id = .error error) :
    (resumeWorkflow id payload).run Operation.effect outside db = (.error error,db) := by
  unfold resumeWorkflow fetch
  simp [Operation.effect,missing]

theorem resume_unpaused (there : db.getWorkflow id = .ok row) (running : row.status ≠ .wait) :
    (resumeWorkflow id payload).run Operation.effect outside db =
      (.ok ⟨400,"Cannot resume workflow that is not paused."⟩,db) := by
  unfold resumeWorkflow fetch
  simp [Operation.effect,there,running]

theorem resume_active (there : db.getWorkflow id = .ok row) (paused : row.status = .wait)
    (active : db.hasActiveTasks id = true) :
    (resumeWorkflow id payload).run Operation.effect outside db =
      (.ok ⟨400,"Cannot resume workflow while there are active tasks running."⟩,db) := by
  unfold resumeWorkflow fetch query
  simp [Operation.effect,there,paused,active]

/-- The database once the resumed row is saved. -/
def Db.reopened (db : Db) (id : WorkflowId) (row : Workflow) (payload : Option Json) : Db :=
  {db with workflows := db.workflows.set id (row.resumed payload)}

theorem resume_aimless (there : db.getWorkflow id = .ok row) (paused : row.status = .wait)
    (idle : db.hasActiveTasks id = false) (aimless : row.nextNode = none) :
    (resumeWorkflow id payload).run Operation.effect outside db =
      (.ok ⟨400,"No node to resume from."⟩,db.reopened id row payload) := by
  unfold resumeWorkflow fetch query saveWorkflow
  unfold Workflow.nextNode at aimless
  simp [Operation.effect,there,paused,idle,aimless,Db.reopened]

/-- With a node to go on from, the request sends its message or fails on the graph. -/
theorem resume_aimed {node : NodeId} (there : db.getWorkflow id = .ok row) (paused : row.status = .wait)
    (idle : db.hasActiveTasks id = false) (aimed : row.nextNode = some node) :
    (∃ error, (resumeWorkflow id payload).run Operation.effect outside db = (.error error,db.reopened id row payload)) ∨
    ∃ message call, (resumeWorkflow id payload).run Operation.effect outside db =
      (.ok ⟨200,message⟩,{db.reopened id row payload with queue := db.queue ++ [.processNextNode call]}) := by
  unfold resumeWorkflow fetch query saveWorkflow applyAsync
  unfold Workflow.nextNode at aimed
  have data : ({db with workflows := db.workflows.set id (row.resumed payload)} : Db).templateData row = db.templateData row :=
    rfl
  cases graph : db.templateData row with
  | error error =>
    left
    exact ⟨error,by simp [Operation.effect,there,paused,idle,aimed,Db.reopened,data,graph]⟩
  | ok g =>
    cases adjacency : g.adjacencyList with
    | error error =>
      left
      exact ⟨error,by simp [Operation.effect,there,paused,idle,aimed,Db.reopened,data,graph,adjacency]⟩
    | ok adjacent =>
      right
      exact ⟨_,⟨node,id,g⟩,by simp [Operation.effect,there,paused,idle,aimed,Db.reopened,data,graph,adjacency]; rfl⟩

/-- The row that is saved is in progress, and so differs from the paused one. -/
theorem resumed_differs (there : db.getWorkflow id = .ok row) (paused : row.status = .wait) :
    (db.reopened id row payload).getWorkflow id ≠ db.getWorkflow id := by
  intro same
  have bound : id < db.workflows.length := by
    unfold Db.getWorkflow at there
    split at there
    · rename_i workflow found
      exact (List.getElem?_eq_some_iff.mp found).1
    · cases there
  have saved : (db.reopened id row payload).getWorkflow id = .ok (row.resumed payload) := by
    unfold Db.getWorkflow Db.reopened
    simp only [List.getElem?_set_self bound]
  rw [saved,there] at same
  have status := congrArg Workflow.status (Except.ok.inj same)
  rw [paused] at status
  cases status

/-- A valid request for a paused and idle workflow without a node to go on from. -/
def Aimless (decode : String → Option Json) (id : WorkflowId) (body : Body) (db : Db) : Prop :=
  (body.validated decode).isSome = true ∧ db.hasActiveTasks id = false ∧
    ∃ row, db.getWorkflow id = .ok row ∧ row.status = .wait ∧ row.nextNode = none

/-- A request that leaves the database alone and resumes nothing is clean. -/
theorem clean_of_unchanged {result : Except Error Response} (run : resumes decode outside id body db = (result,db))
    (refused : ∀ message, result ≠ .ok ⟨200,message⟩) : RefusesCleanly decode outside id body db where
  refused := by
    intro message _
    rw [run]
    exact ⟨rfl,rfl⟩
  resumed := by
    intro row message _ _ resumed
    rw [run] at resumed
    exact absurd resumed (refused message)

/-- Requests are refused cleanly, except those that pass every check before the workflow is saved and
then find no node to resume from. -/
theorem refuses_cleanly_iff (decode : String → Option Json) (outside : Outside) (id : WorkflowId) (body : Body) (db : Db) :
    RefusesCleanly decode outside id body db ↔ ¬Aimless decode id body db := by
  constructor
  · intro clean aimless
    obtain ⟨valid,idle,row,there,paused,nowhere⟩ := aimless
    obtain ⟨payload,valid⟩ := Option.isSome_iff_exists.mp valid
    have run := @resumes_valid _ outside id _ db _ valid
    rw [resume_aimless there paused idle nowhere] at run
    have same := clean.refused "No node to resume from." (by rw [run])
    rw [run] at same
    exact resumed_differs there paused same.1
  · intro aimed
    cases valid : body.validated decode with
    | none =>
      have run := @resumes_invalid _ outside id _ db valid
      exact clean_of_unchanged run (by simp)
    | some payload =>
      have run := @resumes_valid _ outside id _ db _ valid
      cases there : db.getWorkflow id with
      | error error =>
        rw [resume_missing there] at run
        exact clean_of_unchanged run (by simp)
      | ok row =>
        by_cases paused : row.status = .wait
        · cases idle : db.hasActiveTasks id with
          | true =>
            rw [resume_active there paused idle] at run
            exact clean_of_unchanged run (by simp)
          | false =>
            cases node : row.nextNode with
            | none => exact absurd ⟨by rw [valid]; rfl,idle,row,there,paused,node⟩ aimed
            | some node =>
              rcases @resume_aimed outside id db row payload _ there paused idle node with
                ⟨error,ends⟩ | ⟨message,call,ends⟩
              · rw [ends] at run
                constructor
                · intro message refused
                  rw [run] at refused
                  cases refused
                · intro row message _ _ resumed
                  rw [run] at resumed
                  cases resumed
              · rw [ends] at run
                constructor
                · intro message refused
                  rw [run] at refused
                  cases refused
                · intro row message _ _ _
                  exact ⟨call,by rw [run]⟩
        · rw [resume_unpaused there paused] at run
          exact clean_of_unchanged run (by simp)

end condition

section counterexample

/-- A version-1 workflow that was paused; version-1 workflows have no current node. -/
def pausedRow : Workflow :=
  { status := .wait, workflowTemplate := none, currentNodeId := none, lastTaskOutput := none, nodeId := none,
    userCode := "space00000.example.CHAIN", payload := .obj [], platformTaskId := none, space := 0,
    finishedAt := false, parent := none }

def pausedDb : Db := ⟨[pausedRow],[],[],[],0⟩

/-- The refused request has set the workflow in progress. -/
theorem refused_and_started : ¬RefusesCleanly (fun _ => none) ⟨"worker",[],.ok .null⟩ 0 (.json (.obj [])) pausedDb := by
  intro clean
  exact @resumed_differs _ _ pausedRow _ rfl rfl (clean.refused "No node to resume from." rfl).1

end counterexample

end FinmarsWorkflow
