import FinmarsWorkflow.Keys
import FinmarsWorkflow.Chain
import FinmarsWorkflow.Workers

/-! When the chain of a workflow stands still.
A failure or a cancel is final for the steps of the chain if, at the moment it is stored,
nothing of the chain is left that could write: what is queued and what is being worked on is
revoked. Only an end may follow an error, since it looks for that one status. -/
namespace FinmarsWorkflow.Chain
open Interleave

/-- The statuses of a workflow that was stopped. -/
def isStopped : WorkflowStatus → Bool
  | .error | .timeout | .canceled => true
  | .init | .progress | .wait | .success => false

def Broker.status (broker : Broker) (workflow : WorkflowId) : Option WorkflowStatus :=
  broker.db.workflows[workflow]?.map Workflow.status

section halted
variable (revoked : List CeleryId) (status : WorkflowStatus)

/-- The first members of a rest that are sent are dropped, or are an end that finds an error. -/
def RestHalted : List Member → Prop
  | [] => True
  | .start::_ => False
  | .step celery::_ => celery ∈ revoked
  | .group celeries::rest => if celeries = [] then RestHalted rest else ∀ celery ∈ celeries, celery ∈ revoked
  | .finish::rest => status = .error ∧ RestHalted rest

def Delivery.Halted (delivery : Delivery) : Prop := match delivery.piece with
  | .start => False
  | .step celery | .part celery _ => celery ∈ revoked
  | .finish => status = .error ∧ RestHalted revoked status delivery.rest

/-- The next operation of a worker that will store no other status. -/
def WorkHalted (delivery : Delivery) : Option Work → Prop
  | none => True
  | some (.complete _) => delivery.piece.celery = none ∧ RestHalted revoked status delivery.rest
  | some (.tenant .read) => delivery.piece = .finish ∧ status = .error ∧ RestHalted revoked status delivery.rest
  | some _ => False

/-- What is queued for the chain of a workflow is dropped, or is an end that finds an error. -/
def MessageHalted (workflow : WorkflowId) : Message → Prop
  | .member delivery => delivery.plan.workflow = workflow → delivery.Halted revoked status
  | _ => True

def ThreadHalted (workflow : WorkflowId) (origin : Origin) (work : Option Work) : Prop := match origin.delivery? with
  | some delivery => delivery.plan.workflow = workflow →
    origin.celery.any revoked.contains = true ∨ WorkHalted revoked status delivery work
  | none => True

instance decidableRest : (members : List Member) → Decidable (RestHalted revoked status members)
  | [] => .isTrue trivial
  | .start::_ => .isFalse id
  | .step celery::_ => inferInstanceAs (Decidable (celery ∈ revoked))
  | .group celeries::rest =>
    have := decidableRest rest
    inferInstanceAs (Decidable (if celeries = [] then _ else ∀ celery ∈ celeries, celery ∈ revoked))
  | .finish::rest =>
    have := decidableRest rest
    inferInstanceAs (Decidable (_ ∧ _))

instance (delivery : Delivery) : Decidable (delivery.Halted revoked status) := by
  unfold Delivery.Halted
  split <;> infer_instance

instance (delivery : Delivery) (work : Option Work) : Decidable (WorkHalted revoked status delivery work) := by
  unfold WorkHalted
  split <;> infer_instance

instance (workflow : WorkflowId) (message : Message) : Decidable (MessageHalted revoked status workflow message) := by
  unfold MessageHalted
  split <;> infer_instance

instance (workflow : WorkflowId) (origin : Origin) (work : Option Work) :
    Decidable (ThreadHalted revoked status workflow origin work) := by
  unfold ThreadHalted
  split <;> infer_instance

end halted

def advances : Action → Nat → Bool
  | .advance index _,position => index == position
  | _,_ => false

/-- Nothing of the chain of a workflow can go on, but for the thread that a label advances. -/
def ChainHalted (workflow : WorkflowId) (status : WorkflowStatus) (view : Seen) (label : Action) : Prop :=
  (∀ message ∈ view.shared.queue, MessageHalted view.shared.revoked status workflow message) ∧
  ∀ row ∈ view.threads.zipIdx, advances label row.2 = false →
    ThreadHalted view.shared.revoked status workflow row.1.1 row.1.2

instance (workflow : WorkflowId) (status : WorkflowStatus) (view : Seen) (label : Action) :
    Decidable (ChainHalted workflow status view label) := inferInstanceAs (Decidable (_ ∧ _))

/-- A workflow is stopped only when its chain stands still. -/
def stopsHalted (workflow : WorkflowId) : Allowed := fun view label =>
  ∀ status ∈ (view.after machine label).status workflow, isStopped status = true →
    view.shared.status workflow ≠ some status → ChainHalted workflow status view label

instance (workflow : WorkflowId) (view : Seen) (label : Action) : Decidable (stopsHalted workflow view label) := by
  unfold stopsHalted
  infer_instance

/-- Celery obeys revokes, and a workflow is stopped only when its chain stands still. -/
def stopping (workflow : WorkflowId) : Allowed := fun view label => celery view label ∧ stopsHalted workflow view label

instance (workflow : WorkflowId) (view : Seen) (label : Action) : Decidable (stopping workflow view label) :=
  inferInstanceAs (Decidable (_ ∧ _))

section rest
variable {revoked more : List CeleryId} {status : WorkflowStatus} {members : List Member} {delivery : Delivery}

theorem RestHalted.mono (halted : RestHalted revoked status members) (grows : revoked ⊆ more) :
    RestHalted more status members := by
  induction members with
  | nil => trivial
  | cons member rest ih =>
    cases member with
    | start => exact halted
    | step celery => exact grows halted
    | group celeries =>
      unfold RestHalted at halted ⊢
      split
      next empty =>
        rw [if_pos empty] at halted
        exact ih halted
      next some_task =>
        rw [if_neg some_task] at halted
        exact fun celery member => grows (halted celery member)
    | finish => exact ⟨halted.1,ih halted.2⟩

theorem Delivery.Halted.mono (halted : delivery.Halted revoked status) (grows : revoked ⊆ more) :
    delivery.Halted more status := by
  unfold Delivery.Halted at halted ⊢
  cases piece : delivery.piece with
  | start => simp only [piece] at halted
  | step celery | part celery chord =>
    simp only [piece] at halted ⊢
    exact grows halted
  | finish =>
    simp only [piece] at halted ⊢
    exact ⟨halted.1,halted.2.mono grows⟩

/-- What posting a rest adds to the queue. -/
theorem post_member {broker : Broker} {plan : Plan} (member : .member delivery ∈ (broker.post plan members).queue) :
    .member delivery ∈ broker.queue ∨
      delivery.plan = plan ∧ ∀ revoked status, RestHalted revoked status members → delivery.Halted revoked status := by
  have pushed (piece : Piece) (rest : List Member)
      (inside : .member delivery ∈ (broker.push (.member ⟨plan,piece,rest⟩)).queue) :
      .member delivery ∈ broker.queue ∨ delivery = ⟨plan,piece,rest⟩ := by
    rcases List.mem_append.mp inside with old | new
    · exact .inl old
    · cases List.mem_singleton.mp new
      exact .inr rfl
  induction members with
  | nil => exact .inl member
  | cons first rest ih =>
    cases first with
    | start =>
      rcases pushed _ _ member with old | rfl
      · exact .inl old
      · exact .inr ⟨rfl,fun _ _ halted => halted⟩
    | step celery =>
      rcases pushed _ _ member with old | rfl
      · exact .inl old
      · exact .inr ⟨rfl,fun _ _ halted => halted⟩
    | finish =>
      rcases pushed _ _ member with old | rfl
      · exact .inl old
      · exact .inr ⟨rfl,fun _ _ halted => halted⟩
    | group celeries =>
      unfold Broker.post at member
      split at member
      next empty =>
        refine (ih member).imp_right (fun both => ⟨both.1,fun revoked status halted => both.2 revoked status ?_⟩)
        rwa [RestHalted,if_pos empty] at halted
      next some_task =>
        rcases List.mem_append.mp member with old | new
        · exact .inl old
        · obtain ⟨celery,among,same⟩ := List.mem_map.mp new
          cases same
          refine .inr ⟨rfl,fun revoked status halted => ?_⟩
          rw [RestHalted,if_neg some_task] at halted
          exact halted celery among

theorem post_kept (broker : Broker) (plan : Plan) (members : List Member) :
    (broker.post plan members).db = broker.db ∧ (broker.post plan members).revoked = broker.revoked := by
  induction members with
  | nil => exact ⟨rfl,rfl⟩
  | cons first rest ih =>
    cases first with
    | start | step | finish => exact ⟨rfl,rfl⟩
    | group celeries =>
      unfold Broker.post
      split
      · exact ih
      · exact ⟨rfl,rfl⟩

theorem complete_member {broker : Broker} {other : Delivery} (member : .member other ∈ (broker.complete delivery).queue) :
    .member other ∈ broker.queue ∨ other.plan = delivery.plan ∧
      ∀ revoked status, RestHalted revoked status delivery.rest → other.Halted revoked status := by
  unfold Broker.complete at member
  split at member
  · split at member
    · have posted := post_member member
      exact posted
    · exact .inl member
    · exact .inl member
  · exact post_member member

theorem complete_kept (broker : Broker) (delivery : Delivery) :
    (broker.complete delivery).db = broker.db ∧ (broker.complete delivery).revoked = broker.revoked := by
  unfold Broker.complete
  split
  · split
    · exact post_kept {broker with chords := _} _ _
    · exact ⟨rfl,rfl⟩
    · exact ⟨rfl,rfl⟩
  · exact post_kept _ _ _

end rest

section threads

/-- What a worker on a stopped chain may still do. -/
def Spares (workflow : WorkflowId) (status : WorkflowStatus) (revoked : List CeleryId) (delivery : Delivery) : Work → Prop
  | .tenant (.saveWorkflow id row) => id = workflow → row.status = status
  | .complete _ => RestHalted revoked status delivery.rest
  | _ => True

/-- As long as the workflow has a status, the rest of a worker's program stores no other. -/
def Harmless (workflow : WorkflowId) (status : WorkflowStatus) (revoked : List CeleryId) (delivery : Delivery)
    (program : Chained Unit) : Prop :=
  program.Ensures (fun broker => broker.status workflow = some status) (Spares workflow status revoked delivery) (fun _ => True)

/-- A worker on a piece completes that piece only, and has nothing else to store when it
has stopped a workflow. -/
def Decent (delivery : Delivery) (next : Broker → Outside → Chained Unit) : Work → Prop
  | .complete other => other = delivery
  | .post _ _ | .send _ => False
  | .tenant (.saveWorkflow _ row) => isStopped row.status = true →
    ∀ workflow revoked s b, Harmless workflow row.status revoked delivery (next s b)
  | .tenant (.createWorkflow row) => isStopped row.status = false
  | _ => True

/-- Every step of a worker is decent, and harmless where it looks halted. -/
def Proper (delivery : Delivery) : Chained Unit → Prop
  | .pure _ | .raise _ => True
  | .step work next => Decent delivery next work ∧
    (∀ status revoked, WorkHalted revoked status delivery (some work) →
      Harmless delivery.plan.workflow status revoked delivery (.step work next)) ∧
    ∀ s b, Proper delivery (next s b)

/-- Nobody else sends members of chains. -/
def Foreign : Work → Prop
  | .tenant _ | .revoke _ | .errback _ => True
  | .send message => ∀ delivery, message ≠ .member delivery
  | .post _ _ | .complete _ => False

variable {workflow : WorkflowId} {status : WorkflowStatus} {revoked more : List CeleryId} {delivery : Delivery}

theorem Harmless.mono {program : Chained Unit} (harmless : Harmless workflow status revoked delivery program)
    (grows : revoked ⊆ more) : Harmless workflow status more delivery program := by
  refine Program.Ensures.mono harmless (fun _ holds => holds) (fun work spares => ?_) (fun _ holds => holds)
  cases work with
  | complete other => exact RestHalted.mono spares grows
  | tenant operation =>
    cases operation with
    | saveWorkflow => exact spares
    | _ => trivial
  | revoke | post | errback | send => trivial

/-- The operations of the tenant schema in a step, before anything is stored for its workflow. -/
def Unstopping : Operation → Prop
  | .saveWorkflow _ row | .createWorkflow row => isStopped row.status = false
  | _ => True

def Storing (status : WorkflowStatus) : Operation → Prop
  | .saveWorkflow _ row => row.status = status
  | .createWorkflow _ => False
  | _ => True

theorem fetch_ensures {α : Type} {may : Operation → Prop} (ask : Db → Except Error α) (read : may .read) :
    (fetch ask).Ensures (fun _ => True) may (fun _ => True) :=
  ⟨read,fun _ _ _ => .lift trivial⟩

theorem dispatch_ensures {may : Operation → Prop} (send : ∀ message, may (.send message)) (messages : List FinmarsWorkflow.Message) :
    (dispatch messages).Ensures (fun _ => True) may (fun _ => True) := by
  induction messages with
  | nil => trivial
  | cons message rest ih => exact ⟨send message,fun _ _ _ => ih⟩

theorem performCalls_ensures (id : TaskId) (task : Task) (calls : List Call) :
    (performCalls id task calls).Ensures (fun _ => True) Unstopping (fun _ => True) := by
  induction calls generalizing task with
  | nil => trivial
  | cons call rest ih =>
    cases call with
    | log message => exact ⟨trivial,fun _ _ _ => ih _⟩
    | updateProgress progress =>
      apply (fetch_ensures (·.getTask id) trivial).andThen
      intro row
      exact ⟨trivial,fun _ _ _ => ih _⟩

theorem userCode_ensures (id : TaskId) (task : Task) (kwargs : Kwargs) :
    (userCode id task kwargs).Ensures (fun _ => True) Unstopping (fun _ => True) := by
  refine ⟨trivial,fun s b _ => ?_⟩
  apply (performCalls_ensures id task b.calls).andThen
  intro _
  exact .lift trivial

theorem executeWorkflowStep_ensures (definitions : Definitions) (id : TaskId) (task : Task) (kwargs : Kwargs) :
    (executeWorkflowStep definitions id task kwargs).Ensures (fun _ => True) Unstopping (fun _ => True) := by
  apply (fetch_ensures (·.getWorkflow task.workflow) trivial).andThen
  intro workflow
  split
  · exact userCode_ensures id task kwargs
  · apply (Program.Ensures.lift trivial).andThen
    intro version
    split
    · apply (fetch_ensures _ trivial).andThen
      intro template
      exact ⟨rfl,fun _ _ _ => ⟨trivial,fun _ _ _ => ⟨trivial,fun _ _ _ => trivial⟩⟩⟩
    · exact userCode_ensures id task kwargs

theorem stepBody_ensures (definitions : Definitions) (payload : Json) (celery : CeleryId) :
    (stepBody definitions payload celery).Ensures (fun _ => True) Unstopping (fun _ => True) := by
  have started : (beforeStart celery).Ensures (fun _ => True) Unstopping (fun _ => True) := by
    refine ⟨trivial,fun s b _ => ?_⟩
    apply (Program.Ensures.lift trivial).andThen
    intro found
    exact ⟨trivial,fun _ _ _ => trivial⟩
  apply started.andThen
  intro found
  exact executeWorkflowStep_ensures definitions _ _ _

theorem handleTaskSuccess_ensures (depth : Nat) (id : TaskId) (task : Task) (retval : Json) :
    (handleTaskSuccess depth id task retval).Ensures (fun _ => True) Unstopping (fun _ => True) := by
  induction depth generalizing id task with
  | zero => trivial
  | succ depth ih =>
    unfold handleTaskSuccess
    split
    · trivial
    · refine ⟨trivial,fun _ _ _ => ?_⟩
      apply (fetch_ensures (·.getWorkflow _) trivial).andThen
      intro workflow
      split
      · trivial
      · apply (fetch_ensures (·.templateData workflow) trivial).andThen
        intro graph
        apply (Program.Ensures.lift trivial).andThen
        intro next
        split
        · refine ⟨rfl,fun _ _ _ => ?_⟩
          cases workflow.parent with
          | none => trivial
          | some parent =>
            apply (fetch_ensures _ trivial).andThen
            intro above
            exact ih _ _
        · exact dispatch_ensures (fun _ => trivial) _

theorem onSuccess_ensures (celery : CeleryId) (retval : Json) :
    (onSuccess celery retval).Ensures (fun _ => True) Unstopping (fun _ => True) := by
  apply (fetch_ensures _ trivial).andThen
  intro found
  exact handleTaskSuccess_ensures _ _ _ _

theorem failTask_ensures (depth : Nat) (id : TaskId) (task : Task) (error : Error) :
    (failTask depth id task error).Ensures (fun _ => True) (Storing error.workflowStatus) (fun _ => True) := by
  induction depth generalizing id task with
  | zero => trivial
  | succ depth ih =>
    apply (fetch_ensures (·.getWorkflow task.workflow) trivial).andThen
    intro workflow
    refine ⟨trivial,fun _ _ _ => ⟨rfl,fun _ _ _ => ?_⟩⟩
    apply (fetch_ensures (·.getWorkflow task.workflow) trivial).andThen
    intro row
    cases row.parent with
    | none => trivial
    | some parent =>
      apply (fetch_ensures (·.parentTask parent row.nodeId row.space) trivial).andThen
      intro found
      apply (fetch_ensures (·.taskByCeleryId found.2.celeryTaskId) trivial).andThen
      intro above
      exact ih _ _

theorem onFailure_ensures (celery : CeleryId) (error : Error) :
    (onFailure celery error).Ensures (fun _ => True) (Storing error.workflowStatus) (fun _ => True) := by
  apply (fetch_ensures _ trivial).andThen
  intro found
  exact failTask_ensures _ _ _ _

/-- What stores one status only is harmless where that is the status. -/
theorem storing_harmless {program : Prog Unit} (ensures : program.Ensures (fun _ => True) (Storing status) (fun _ => True)) :
    Harmless workflow status revoked delivery (tenant program) := by
  refine Program.Ensures.within ensures (fun _ _ => trivial) (fun operation stores => ?_)
  cases operation with
  | saveWorkflow id row => exact fun _ => stores
  | _ => trivial

section step
variable (task : delivery.piece.celery.isSome)
include task

theorem task_unhalted {work : Work} (halted : WorkHalted revoked status delivery (some work)) : False := by
  unfold WorkHalted at halted
  split at halted
  next same => cases same
  next => rw [halted.1] at task; cases task
  next => rw [halted.1] at task; cases task
  next => exact halted

theorem proper_step {work : Work} {next : Broker → Outside → Chained Unit} (decent : Decent delivery next work)
    (rest : ∀ s b, Proper delivery (next s b)) : Proper delivery (.step work next) :=
  ⟨decent,fun _ _ halted => (task_unhalted task halted).elim,rest⟩

theorem proper_body {α : Type} {program : Prog α} {next : Except Error α → Chained Unit}
    (ensures : program.Ensures (fun _ => True) Unstopping (fun _ => True)) (rest : ∀ result, Proper delivery (next result)) :
    Proper delivery ((tenant program).outcome.bind next) := by
  induction program with
  | pure value => exact rest _
  | raise error => exact rest _
  | step operation continued ih =>
    refine proper_step task ?_ (fun s b => ih s.db b (ensures.2 s.db b trivial))
    cases operation with
    | saveWorkflow id row =>
      intro stopped
      have kept : isStopped row.status = false := ensures.1
      rw [kept] at stopped
      cases stopped
    | createWorkflow row => exact ensures.1
    | _ => trivial

theorem proper_failure {program : Prog Unit} (ensures : program.Ensures (fun _ => True) (Storing status) (fun _ => True)) :
    Proper delivery (tenant program) := by
  induction program with
  | pure value => trivial
  | raise error => trivial
  | step operation continued ih =>
    refine proper_step task ?_ (fun s b => ih s.db b (ensures.2 s.db b trivial))
    cases operation with
    | saveWorkflow id row =>
      intro _ workflow revoked s b
      have stored : row.status = status := ensures.1
      rw [stored]
      exact storing_harmless (ensures.2 s.db b trivial)
    | createWorkflow row => exact ensures.1.elim
    | _ => trivial

theorem proper_runStep (definitions : Definitions) (celery : CeleryId) : Proper delivery (runStep definitions delivery celery) := by
  have failing (error : Error) : Proper delivery (tenant (onFailure celery error).attempt) :=
    proper_failure task (Program.Ensures.attempt (onFailure_ensures celery error))
  apply proper_body task (stepBody_ensures definitions _ celery)
  intro result
  cases result with
  | error error => exact proper_step task trivial (fun _ _ => failing error)
  | ok retval =>
    refine proper_step task rfl (fun _ _ => ?_)
    apply proper_body task (onSuccess_ensures celery retval)
    intro result
    cases result with
    | ok => trivial
    | error error => exact failing error

end step

theorem status_found {broker : Broker} {row : Workflow} (found : broker.db.getWorkflow workflow = .ok row) :
    broker.status workflow = some row.status := by
  rw [Broker.status,getWorkflow_ok found]
  rfl

/-- The end of a chain that has failed finds the error and leaves it. -/
theorem harmless_finish (rest : RestHalted revoked .error delivery.rest) :
    Harmless workflow .error revoked delivery (runBound delivery (endWorkflow workflow)) := by
  refine ⟨trivial,fun s b failed => ?_⟩
  dsimp only [fetch]
  cases found : s.db.getWorkflow workflow with
  | error error => exact ⟨trivial,fun _ _ _ => trivial⟩
  | ok row =>
    have status : row.status = .error := by
      have same := status_found found
      rw [show s.status workflow = some .error from failed] at same
      exact (Option.some.inj same).symm
    rw [Program.lift_ok,Program.bind_pure,if_neg (not_not.mpr status)]
    exact ⟨rest,fun _ _ _ => trivial⟩

theorem proper_concluded (result : Except Error Unit) :
    Proper delivery (concluded delivery result) := by
  cases result with
  | ok value => exact ⟨rfl,fun _ _ halted => ⟨halted.2,fun _ _ _ => trivial⟩,fun _ _ => trivial⟩
  | error error => exact ⟨trivial,fun _ _ halted => halted.elim,fun _ _ => trivial⟩

/-- A save that stops nothing, with what follows a start or an end. -/
theorem proper_save {id : WorkflowId} {row : Workflow}
    (goes : isStopped row.status = false) : Proper delivery (runBound delivery (saveWorkflow id row)) := by
  refine ⟨fun stopped => ?_,fun _ _ halted => halted.elim,fun _ _ => proper_concluded (.ok ())⟩
  rw [goes] at stopped
  cases stopped

theorem proper_runMember (definitions : Definitions) (delivery : Delivery) : Proper delivery (runMember definitions delivery) := by
  unfold runMember
  cases piece : delivery.piece with
  | start =>
    refine ⟨trivial,fun status revoked halted => ?_,fun s b => ?_⟩
    · have other := halted.1
      rw [piece] at other
      cases other
    · dsimp only [fetch]
      cases s.db.getWorkflow delivery.plan.workflow with
      | error error => exact proper_concluded (.error error)
      | ok row => exact proper_save rfl
  | finish =>
    refine ⟨trivial,fun status revoked halted => ?_,fun s b => ?_⟩
    · obtain ⟨_,rfl,rest⟩ := halted
      exact harmless_finish rest
    · dsimp only [fetch]
      cases s.db.getWorkflow delivery.plan.workflow with
      | error error => exact proper_concluded (.error error)
      | ok row =>
        rw [Program.lift_ok,Program.bind_pure]
        split
        · exact proper_save rfl
        · exact proper_concluded (.ok ())
  | step celery | part celery chord =>
    have task : delivery.piece.celery.isSome := by rw [piece]; rfl
    exact proper_runStep task definitions celery

/-- What runs beside the members of chains sends none. -/
theorem foreign_tenant {α : Type} (program : Prog α) : (tenant program).Ensures (fun _ => True) Foreign (fun _ => True) := by
  induction program with
  | pure => trivial
  | raise => trivial
  | step operation next ih => exact ⟨trivial,fun s b _ => ih s.db b⟩

theorem foreign_cancelTasks (tasks : List (TaskId × Task)) :
    (cancelTasks tasks).Ensures (fun _ => True) Foreign (fun _ => True) := by
  induction tasks with
  | nil => trivial
  | cons row rest ih =>
    unfold cancelTasks
    split
    · exact ⟨trivial,fun _ _ _ => (foreign_tenant _).andThen (fun _ => ih)⟩
    · exact ih

theorem foreign_cancelWorkflow (workflow : WorkflowId) :
    (cancelWorkflow workflow).Ensures (fun _ => True) Foreign (fun _ => True) := by
  apply (foreign_tenant _).andThen
  intro row
  split
  · trivial
  · apply (foreign_tenant _).andThen
    intro tasks
    apply (foreign_cancelTasks tasks).andThen
    intro _
    exact foreign_tenant _

theorem setSchema_ensures {may : Work → Prop} (context : Option SpaceId) :
    (setSchemaFromContext context).Ensures (fun _ => True) may (fun _ => True) := by
  cases context with
  | some => trivial
  | none => trivial

/-- The launcher sends its two messages if it is given no hook, and nothing otherwise. -/
theorem launcher_ensures {may : Work → Prop} (registered : String → Bool) (workflow : WorkflowId) (tasksNames : List Entry)
    (context : Option SpaceId) (hooks : may (.send (.hooks []))) (mark : may (.send (.markAsCanceledInitTasks workflow none))) :
    (failureHooksLauncher registered workflow tasksNames context).Ensures (fun _ => True) may (fun _ => True) := by
  apply (setSchema_ensures context).andThen
  intro _
  cases tasksNames with
  | nil => exact ⟨hooks,fun _ _ _ => ⟨mark,fun _ _ _ => trivial⟩⟩
  | cons hook rest =>
    obtain ⟨error,raises⟩ := launchHooks_raises registered workflow hook rest
    rw [raises]
    trivial

theorem foreign_program (definitions : Definitions) (registered : String → Bool) {origin : Origin}
    (other : origin.delivery? = none) :
    (origin.program definitions registered).Ensures (fun _ => True) Foreign (fun _ => True) := by
  cases origin with
  | message message =>
    cases message with
    | member => cases other
    | failureHooksLauncher workflow tasksNames payload context =>
      refine Program.Ensures.attempt (launcher_ensures registered workflow tasksNames context ?_ ?_)
      · intro delivery same
        cases same
      · intro delivery same
        cases same
    | hooks signatures => exact ⟨trivial,fun _ _ _ => Program.Ensures.attempt (.lift trivial)⟩
    | markAsCanceledInitTasks workflow context =>
      refine Program.Ensures.attempt ((setSchema_ensures context).andThen (fun _ => ?_))
      apply (foreign_tenant _).andThen
      intro tasks
      exact foreign_tenant _
  | cancel workflow => exact Program.Ensures.attempt (foreign_cancelWorkflow workflow)

end threads

section steps

/-- A workflow that is stopped has a chain that stands still. -/
structure Calm (workflow : WorkflowId) (S : Installation) : Prop where
  proper : ∀ thread ∈ S.threads, ∀ delivery, thread.1.delivery? = some delivery → Proper delivery thread.2
  foreign : ∀ thread ∈ S.threads, thread.1.delivery? = none →
    Program.Ensures (fun _ => True) Foreign thread.2 (fun _ => True)
  queue : ∀ status, isStopped status = true → S.shared.status workflow = some status →
    ∀ delivery, .member delivery ∈ S.shared.queue → delivery.plan.workflow = workflow →
    delivery.Halted S.shared.revoked status
  threads : ∀ status, isStopped status = true → S.shared.status workflow = some status →
    ∀ thread ∈ S.threads, ∀ delivery, thread.1.delivery? = some delivery → delivery.plan.workflow = workflow →
    S.shared.revoked? thread.1.celery = true ∨ Harmless workflow status S.shared.revoked delivery thread.2

variable {workflow : WorkflowId} {definitions : Definitions} {registered : String → Bool} {before after : Installation}
  {label : Action}

theorem status_effect {work : Work} {broker : Broker}
    (changed : (work.effect broker).status workflow ≠ broker.status workflow) : ∃ operation, work = .tenant operation := by
  cases work with
  | tenant operation => exact ⟨operation,rfl⟩
  | revoke => exact absurd rfl changed
  | post plan members => rw [Work.effect,Broker.status,(post_kept _ _ _).1] at changed; exact absurd rfl changed
  | complete delivery => rw [Work.effect,Broker.status,(complete_kept _ _).1] at changed; exact absurd rfl changed
  | errback plan =>
    rw [Work.effect,Broker.errback] at changed
    split at changed <;> exact absurd rfl changed
  | send => exact absurd rfl changed

theorem revoked_effect (work : Work) (broker : Broker) : broker.revoked ⊆ (work.effect broker).revoked := by
  cases work with
  | tenant => exact List.Subset.refl _
  | revoke celery => exact List.subset_cons_self _ _
  | post plan members => rw [Work.effect,(post_kept _ _ _).2]; exact List.Subset.refl _
  | complete delivery => rw [Work.effect,(complete_kept _ _).2]; exact List.Subset.refl _
  | errback plan =>
    rw [Work.effect,Broker.errback]
    split <;> exact List.Subset.refl _
  | send => exact List.Subset.refl _

theorem revoked_mono {broker other : Broker} {celery : Option CeleryId} (grows : broker.revoked ⊆ other.revoked)
    (revoked : broker.revoked? celery = true) : other.revoked? celery = true := by
  cases celery with
  | none => cases revoked
  | some celery =>
    simp only [Broker.revoked?,Option.any_some,List.contains_iff_mem] at revoked ⊢
    exact grows revoked

/-- How a status comes to be stored. -/
theorem status_stored {operation : Operation} {broker : Broker} {status : WorkflowStatus}
    (stored : ((Work.tenant operation).effect broker).status workflow = some status)
    (new : broker.status workflow ≠ some status) :
    ∃ row, (operation = .saveWorkflow workflow row ∨ operation = .createWorkflow row) ∧ row.status = status := by
  unfold Broker.status at stored new
  cases operation with
  | saveWorkflow id row =>
    simp only [Work.effect,Operation.effect,List.getElem?_set] at stored
    split at stored
    next same =>
      subst id
      split at stored
      · exact ⟨row,.inl rfl,Option.some.inj stored⟩
      · cases stored
    next => exact absurd stored new
  | createWorkflow row =>
    simp only [Work.effect,Operation.effect,List.getElem?_append] at stored
    split at stored
    · exact absurd stored new
    · cases last : workflow - broker.db.workflows.length with
      | zero =>
        rw [last] at stored
        exact ⟨row,.inr rfl,Option.some.inj stored⟩
      | succ => simp [last] at stored
  | _ => exact absurd stored new

/-- Where the queued members of chains come from. -/
theorem queue_effect {work : Work} {broker : Broker} {delivery : Delivery}
    (member : .member delivery ∈ (work.effect broker).queue) :
    .member delivery ∈ broker.queue ∨
    (∃ other, work = .complete other ∧ delivery.plan = other.plan ∧
      ∀ revoked status, RestHalted revoked status other.rest → delivery.Halted revoked status) ∨
    (∃ plan members, work = .post plan members) ∨ work = .send (.member delivery) := by
  cases work with
  | tenant | revoke => exact .inl member
  | post plan members => exact .inr (.inr (.inl ⟨plan,members,rfl⟩))
  | complete other => exact (complete_member member).imp_right (fun both => .inl ⟨other,rfl,both⟩)
  | errback plan =>
    rw [Work.effect,Broker.errback] at member
    split at member
    · rcases List.mem_append.mp member with old | new
      · exact .inl old
      · cases List.mem_singleton.mp new
    · exact .inl member
  | send message =>
    rcases List.mem_append.mp member with old | new
    · exact .inl old
    · cases List.mem_singleton.mp new
      exact .inr (.inr (.inr rfl))

theorem Proper.harmless {status : WorkflowStatus} {revoked : List CeleryId} {delivery : Delivery} {thread : Chained Unit}
    (proper : Proper delivery thread) (halted : WorkHalted revoked status delivery (programs.operation thread)) :
    Harmless delivery.plan.workflow status revoked delivery thread := by
  cases thread with
  | pure => trivial
  | raise => trivial
  | step work next => exact proper.2.1 status revoked halted

theorem ChainHalted.thread {status : WorkflowStatus} {view : Seen} {position : Nat} {origin : Origin} {work : Option Work}
    {delivery : Delivery} (halted : ChainHalted workflow status view label) (seen : view.threads[position]? = some (origin,work))
    (piece : origin.delivery? = some delivery) (here : delivery.plan.workflow = workflow)
    (apart : advances label position = false) :
    view.shared.revoked? origin.celery = true ∨ WorkHalted view.shared.revoked status delivery work := by
  have thread := halted.2 ((origin,work),position) (List.mem_zipIdx_iff_getElem?.mpr seen) apart
  unfold ThreadHalted at thread
  simp only [piece] at thread
  exact thread here

variable (calm : Calm workflow before) (obeys : celery before.view label) (stops : stopsHalted workflow before.view label)
include calm obeys stops

/-- One step of a thread. -/
theorem calm_advance {index : Nat} {answer : Outside} {origin : Origin} {work : Work} {next : Broker → Outside → Chained Unit}
    (found : before.threads[index]? = some (origin,.step work next)) (same : label = .advance index answer) :
    Calm workflow ⟨work.effect before.shared,before.threads.set index (origin,next before.shared answer)⟩ := by
  have member := List.mem_of_getElem? found
  have seen : before.view.threads[index]? = some (origin,some work) := System.view_found found
  have grows := revoked_effect work before.shared
  have stays {celery : Option CeleryId} (revoked : before.shared.revoked? celery = true) :
      (work.effect before.shared).revoked? celery = true := revoked_mono grows revoked
  have live : before.shared.revoked? origin.celery ≠ true := by
    have unrevoked : advancesRevoked before.view label = false := obeys
    rw [same,advancesRevoked,seen] at unrevoked
    exact Bool.eq_false_iff.mp unrevoked
  have stored : before.view.after machine label = work.effect before.shared := by
    rw [same,View.after,seen]
    rfl
  -- what the step stores stops a chain that stands still but for this thread
  have halts {status : WorkflowStatus} (stopped : isStopped status = true)
      (now : (work.effect before.shared).status workflow = some status) (new : before.shared.status workflow ≠ some status) :
      ChainHalted workflow status before.view label := stops status (stored ▸ now) stopped new
  have harmless {status : WorkflowStatus} (stopped : isStopped status = true)
      (old : before.shared.status workflow = some status) {delivery : Delivery} (piece : origin.delivery? = some delivery)
      (here : delivery.plan.workflow = workflow) :
      Harmless workflow status before.shared.revoked delivery (.step work next) :=
    (calm.threads status stopped old _ member delivery piece here).resolve_left live
  refine ⟨?_,?_,?_,?_⟩
  · intro other among delivery piece
    rcases List.mem_or_eq_of_mem_set among with inside | rfl
    · exact calm.proper other inside delivery piece
    · exact (calm.proper _ member delivery piece).2.2 _ _
  · intro other among none
    rcases List.mem_or_eq_of_mem_set among with inside | rfl
    · exact calm.foreign other inside none
    · exact (calm.foreign _ member none).2 _ _ trivial
  · intro status stopped now delivery queued here
    rcases queue_effect queued with earlier | ⟨other,completes,plan,halted⟩ | ⟨plan,members,posts⟩ | sends
    · by_cases old : before.shared.status workflow = some status
      · exact (calm.queue status stopped old delivery earlier here).mono grows
      · exact ((halts stopped now old).1 _ earlier here).mono grows
    · subst completes
      cases piece : origin.delivery? with
      | none => exact (calm.foreign _ member piece).1.elim
      | some own =>
        have mine : other = own := (calm.proper _ member own piece).1
        subst other
        have old : before.shared.status workflow = some status := by
          rw [← now,Work.effect,Broker.status,Broker.status,(complete_kept _ _).1]
        have rest : RestHalted before.shared.revoked status own.rest := (harmless stopped old piece (plan ▸ here)).1
        exact (halted _ _ rest).mono grows
    · subst posts
      cases piece : origin.delivery? with
      | none => exact (calm.foreign _ member piece).1.elim
      | some own => exact (calm.proper _ member own piece).1.elim
    · subst sends
      cases piece : origin.delivery? with
      | none => exact ((calm.foreign _ member piece).1 delivery rfl).elim
      | some own => exact (calm.proper _ member own piece).1.elim
  · intro status stopped now other among delivery piece here
    by_cases old : before.shared.status workflow = some status
    · rcases List.mem_or_eq_of_mem_set among with inside | rfl
      · exact (calm.threads status stopped old other inside delivery piece here).imp stays (fun kept => kept.mono grows)
      · exact .inr (Harmless.mono ((harmless stopped old piece here).2 _ _ old) grows)
    · rcases mem_set_eraseIdx among with rfl | inside
      · have decent := (calm.proper _ member delivery piece).1
        obtain ⟨operation,rfl⟩ := status_effect (now.trans_ne (Ne.symm old))
        obtain ⟨row,rfl | rfl,rfl⟩ := status_stored now old
        · exact .inr (decent stopped workflow _ _ _)
        · have fresh : isStopped row.status = false := decent
          rw [fresh] at stopped
          cases stopped
      · obtain ⟨position,differs,present⟩ := List.mem_eraseIdx_iff_getElem?.mp inside
        have apart : advances label position = false := by
          rw [same]
          exact beq_eq_false_iff_ne.mpr (Ne.symm differs)
        have proper := calm.proper other (List.mem_of_getElem? present) delivery piece
        rcases (halts stopped now old).thread (System.view_found present) piece here apart with revoked | halted
        · exact .inl (stays revoked)
        · exact .inr (here ▸ (proper.harmless halted).mono grows)

omit calm obeys stops

/-- Saving tasks leaves the workflows and all of Celery as they are. -/
structure Undisturbed (first second : Broker) : Prop where
  queue : second.queue = first.queue
  revoked : second.revoked = first.revoked
  workflows : second.db.workflows = first.db.workflows

theorem Undisturbed.trans {first second third : Broker} (front : Undisturbed first second) (back : Undisturbed second third) :
    Undisturbed first third :=
  ⟨back.queue.trans front.queue,back.revoked.trans front.revoked,back.workflows.trans front.workflows⟩

def CreatesTask (work : Work) : Prop := ∃ row, work = .tenant (.createTask row)

theorem newTask_creates (workflow : WorkflowId) (row : Workflow) (name : String) :
    (newTask workflow row name).Ensures (fun _ => True) CreatesTask (fun _ => True) :=
  ⟨⟨_,rfl⟩,fun _ _ _ => trivial⟩

theorem newTasks_creates (workflow : WorkflowId) (row : Workflow) (names : List String) :
    (newTasks workflow row names).Ensures (fun _ => True) CreatesTask (fun _ => True) := by
  induction names with
  | nil => trivial
  | cons name names ih =>
    apply (newTask_creates workflow row name).andThen
    intro celery
    exact ih.andThen (fun _ => trivial)

theorem parseFlatTasks_creates (workflow : WorkflowId) (row : Workflow) (tasks : List Entry) :
    (parseFlatTasks workflow row tasks).Ensures (fun _ => True) CreatesTask (fun _ => True) := by
  induction tasks with
  | nil => trivial
  | cons entry tasks ih =>
    cases entry with
    | single name => exact (newTask_creates workflow row name).andThen (fun _ => ih.andThen (fun _ => trivial))
    | group names => exact (newTasks_creates workflow row names).andThen (fun _ => ih.andThen (fun _ => trivial))
    | other => trivial

theorem creates_undisturbed {α : Type} {program : Chained α}
    (creates : program.Ensures (fun _ => True) CreatesTask (fun _ => True)) (outside : Outside) (broker : Broker) :
    Undisturbed broker (program.run Work.effect outside broker).2 := by
  refine (creates.run (fun _ => ⟨rfl,rfl,rfl⟩) (fun _ _ _ front back => front.trans back) ?_ broker).1
  rintro work s ⟨row,rfl⟩
  exact ⟨rfl,rfl,rfl⟩

/-- What a launch adds to the queue belongs to a workflow that has not started. -/
structure Launched (first second : Broker) : Prop where
  revoked : second.revoked = first.revoked
  queue : ∀ delivery, .member delivery ∈ second.queue → .member delivery ∈ first.queue ∨
    second.status delivery.plan.workflow = some .init

theorem run_launches {workflow : WorkflowId} (row : Workflow) (manifest : Manifest) (canvas : List Member) (outside : Outside)
    {broker : Broker} (new : broker.status workflow = some .init) :
    Launched broker ((run workflow row manifest canvas).run Work.effect outside broker).2 := by
  have saved := creates_undisturbed (parseFlatTasks_creates workflow row manifest.success.toList) outside broker
  rw [run,Program.monad_bind,Program.run_bind]
  cases parsed : (parseFlatTasks workflow row manifest.success.toList).run Work.effect outside broker with
  | mk result middle =>
    rw [parsed] at saved
    cases result with
    | error error => exact ⟨saved.revoked,fun _ member => .inl (saved.queue ▸ member)⟩
    | ok link =>
      dsimp only
      rw [Program.run_step]
      cases accepted : outside.outcome with
      | ok value =>
        have posted : Launched broker (middle.post ⟨workflow,row.payload,row.space,manifest.failure⟩ (canvas ++ link)) := by
          refine ⟨(post_kept _ _ _).2.trans saved.revoked,fun delivery member => ?_⟩
          refine (post_member member).imp (fun old => saved.queue ▸ old) (fun both => ?_)
          rw [both.1,Broker.status,(post_kept _ _ _).1,saved.workflows]
          exact new
        exact posted
      | error error => exact ⟨saved.revoked,fun _ member => .inl (saved.queue ▸ member)⟩

theorem build_creates (workflow : WorkflowId) (row : Workflow) (manifest : Manifest) :
    (build workflow row manifest).Ensures (fun _ => True) CreatesTask (fun _ => True) :=
  (parseFlatTasks_creates _ _ _).andThen (fun _ => (parseFlatTasks_creates _ _ _).andThen (fun _ => trivial))

theorem executeWorkflow_launches (userCode : String) (payload : Json) (space : SpaceId) (platformTaskId : Option Int)
    (manifest : Manifest) (outside : Outside) (broker : Broker) :
    Launched broker ((executeWorkflow userCode payload space platformTaskId manifest).run Work.effect outside broker).2 := by
  let template := (broker.db.templateByUserCode (spaceLessUserCode userCode) space).toOption.map Prod.fst
  let row := workflowRow template userCode payload space platformTaskId
  let created : Broker := {broker with db := {broker.db with workflows := broker.db.workflows ++ [row]}}
  have stored : created.db.workflows[broker.db.workflows.length]? = some row := by simp [created]
  have new : created.status broker.db.workflows.length = some .init := by
    rw [Broker.status,stored]
    rfl
  have found : created.db.getWorkflow broker.db.workflows.length = .ok row := by
    rw [Db.getWorkflow,stored]
  have rest : Launched created (((build broker.db.workflows.length row manifest).bind
      (run broker.db.workflows.length row manifest)).run Work.effect outside created).2 := by
    have saved := creates_undisturbed (build_creates broker.db.workflows.length row manifest) outside created
    rw [Program.run_bind]
    cases built : (build broker.db.workflows.length row manifest).run Work.effect outside created with
    | mk result middle =>
      rw [built] at saved
      cases result with
      | error error => exact ⟨saved.revoked,fun _ member => .inl (saved.queue ▸ member)⟩
      | ok canvas =>
        have still : middle.status broker.db.workflows.length = some .init := by
          rw [Broker.status,saved.workflows]
          exact new
        have launched := run_launches row manifest canvas outside still
        exact ⟨launched.revoked.trans saved.revoked,
          fun delivery member => (launched.queue delivery member).imp_left (fun old => saved.queue ▸ old)⟩
  have whole : (executeWorkflow userCode payload space platformTaskId manifest).run Work.effect outside broker =
      ((build broker.db.workflows.length row manifest).bind (run broker.db.workflows.length row manifest)).run Work.effect
        outside created := by
    have loaded : (executeWorkflow userCode payload space platformTaskId manifest).run Work.effect outside broker =
        (((Program.lift (created.db.getWorkflow broker.db.workflows.length)).within Broker.db Work.tenant).bind (fun row =>
          (build broker.db.workflows.length row manifest).bind (run broker.db.workflows.length row manifest))).run Work.effect
            outside created := rfl
    rw [loaded,found]
    rfl
  rw [whole]
  exact ⟨rest.revoked,rest.queue⟩

/-- How the state changes and what starts at a move of the environment. -/
theorem react_cases {environment : Environment} {broker after : Broker} {origins : List Origin} {turn : Turn Origin}
    (reacts : react environment broker origins = some (after,turn)) :
    Launched broker after ∧ (∀ origin, turn = .spawn origin → origin.delivery? = none ∨
      after.status = broker.status ∧ ∃ delivery, origin = .message (.member delivery) ∧ .member delivery ∈ broker.queue ∧
        broker.revoked? origin.celery = false) := by
  have erased (index : Nat) : Launched broker {broker with queue := broker.queue.eraseIdx index} :=
    ⟨rfl,fun _ member => .inl (List.mem_of_mem_eraseIdx member)⟩
  have still : Launched broker broker := ⟨rfl,fun _ member => .inl member⟩
  cases environment with
  | launch userCode payload space platformTaskId manifest outside =>
    cases reacts
    refine ⟨executeWorkflow_launches _ _ _ _ _ _ _,?_⟩
    intro origin same
    cases same
  | cancel workflow =>
    cases reacts
    refine ⟨still,?_⟩
    intro origin same
    cases same
    exact .inl rfl
  | deliver index =>
    simp only [react] at reacts
    split at reacts
    next message found =>
      split at reacts
      · cases reacts
      next live =>
        cases reacts
        refine ⟨erased index,?_⟩
        intro origin same
        cases same
        cases message with
        | member delivery =>
          exact .inr ⟨rfl,delivery,rfl,List.mem_of_getElem? found,Bool.eq_false_iff.mpr live⟩
        | failureHooksLauncher | hooks | markAsCanceledInitTasks => exact .inl rfl
    next => cases reacts
  | discard index =>
    simp only [react] at reacts
    split at reacts
    · split at reacts
      · cases reacts
        refine ⟨erased index,?_⟩
        intro origin same
        cases same
      · cases reacts
    · cases reacts
  | kill index =>
    simp only [react] at reacts
    split at reacts
    · split at reacts
      · cases reacts
        refine ⟨still,?_⟩
        intro origin same
        cases same
      · cases reacts
    · cases reacts
  | elsewhere db =>
    cases reacts
    refine ⟨⟨rfl,fun _ member => .inl member⟩,?_⟩
    intro origin same
    cases same

theorem delivery_origin {origin : Origin} {delivery : Delivery} (piece : origin.delivery? = some delivery) :
    origin = .message (.member delivery) := by
  cases origin with
  | message message =>
    cases message with
    | member other => cases piece; rfl
    | failureHooksLauncher | hooks | markAsCanceledInitTasks => cases piece
  | cancel => cases piece

/-- What is taken from the queue of a chain that stands still is an end that finds an error. -/
theorem harmless_delivered {status : WorkflowStatus} {revoked : List CeleryId} {delivery : Delivery}
    (halted : delivery.Halted revoked status) (live : ∀ celery, delivery.piece.celery = some celery → celery ∉ revoked) :
    Harmless delivery.plan.workflow status revoked delivery (runMember definitions delivery) := by
  unfold Delivery.Halted at halted
  unfold runMember
  cases piece : delivery.piece with
  | start => simp only [piece] at halted
  | step celery | part celery chord =>
    simp only [piece] at halted
    exact absurd halted (live celery (by rw [piece]; rfl))
  | finish =>
    simp only [piece] at halted
    obtain ⟨rfl,rest⟩ := halted
    exact harmless_finish rest

/-- One move of the environment. -/
theorem calm_move (calm : Calm workflow before) (stops : stopsHalted workflow before.view label)
    (step : Step machine (Origin.program definitions registered) before label after) {environment : Environment}
    (same : label = .move environment) : Calm workflow after := by
  obtain ⟨turn,reacts⟩ : ∃ turn, react environment before.shared (before.threads.map Prod.fst) = some (after.shared,turn) := by
    cases step with
    | advance | close => cases same
    | keep _ changed reacts | spawn _ changed origin reacts | drop _ changed index reacts =>
      cases same
      exact ⟨_,reacts⟩
  obtain ⟨launched,_⟩ := react_cases reacts
  have spawns {thread : Origin × Chained Unit} (member : thread ∈ after.threads) : thread ∈ before.threads ∨
      thread.2 = thread.1.program definitions registered ∧ (thread.1.delivery? = none ∨
        after.shared.status = before.shared.status ∧ ∃ delivery, thread.1 = .message (.member delivery) ∧
          .member delivery ∈ before.shared.queue ∧ before.shared.revoked? thread.1.celery = false) := by
    rcases step.thread_cases member with inside | ⟨_,_,_,_,advances,_⟩ | ⟨other,moves,spawned,code⟩
    · exact .inl inside
    · rw [same] at advances
      cases advances
    · exact .inr ⟨code,(react_cases spawned).2 thread.1 rfl⟩
  have halts {status : WorkflowStatus} (stopped : isStopped status = true)
      (now : after.shared.status workflow = some status) (new : before.shared.status workflow ≠ some status) :
      ChainHalted workflow status before.view label := stops status (step.view_after ▸ now) stopped new
  refine ⟨?_,?_,?_,?_⟩
  · intro thread member delivery piece
    rcases spawns member with inside | ⟨code,_⟩
    · exact calm.proper thread inside delivery piece
    · rw [code,delivery_origin piece]
      exact proper_runMember definitions delivery
  · intro thread member none
    rcases spawns member with inside | ⟨code,_⟩
    · exact calm.foreign thread inside none
    · rw [code]
      exact foreign_program definitions registered none
  · intro status stopped now delivery queued here
    rw [launched.revoked]
    rcases launched.queue delivery queued with earlier | new
    · by_cases old : before.shared.status workflow = some status
      · exact calm.queue status stopped old delivery earlier here
      · exact (halts stopped now old).1 _ earlier here
    · rw [here,now] at new
      cases new
      cases stopped
  · intro status stopped now thread member delivery piece here
    have revoked : after.shared.revoked? thread.1.celery = before.shared.revoked? thread.1.celery := by
      rw [Broker.revoked?,Broker.revoked?,launched.revoked]
    rw [revoked,launched.revoked]
    rcases spawns member with inside | ⟨code,other | ⟨still,taken,origin,queued,live⟩⟩
    · by_cases old : before.shared.status workflow = some status
      · exact calm.threads status stopped old thread inside delivery piece here
      · obtain ⟨position,present⟩ := List.mem_iff_getElem?.mp inside
        have apart : advances label position = false := by
          rw [same]
          rfl
        exact ((halts stopped now old).thread (System.view_found present) piece here apart).imp_right
          (fun halted => here ▸ (calm.proper thread inside delivery piece).harmless halted)
    · rw [other] at piece
      cases piece
    · cases (delivery_origin piece).symm.trans origin
      rw [still] at now
      refine .inr ?_
      rw [code,origin,← here]
      refine harmless_delivered (calm.queue status stopped now delivery queued here) (fun celery task revoked => ?_)
      have known : thread.1.celery = some celery := by
        rw [origin]
        exact task
      rw [known] at live
      simp only [Broker.revoked?,Option.any_some,List.contains_eq_mem,decide_eq_false_iff_not] at live
      exact live revoked

theorem calm_step (calm : Calm workflow before) (allowed : stopping workflow before.view label)
    (step : Step machine (Origin.program definitions registered) before label after) : Calm workflow after := by
  have taken := step
  cases step with
  | advance index answer origin thread work found busy =>
    cases thread with
    | pure => cases busy
    | raise => cases busy
    | step performed next =>
      cases busy
      exact calm_advance calm allowed.1 allowed.2 found rfl
  | close index origin thread found idle =>
    have inside {thread : Origin × Chained Unit} (member : thread ∈ before.threads.eraseIdx index) : thread ∈ before.threads :=
      List.mem_of_mem_eraseIdx member
    exact ⟨fun thread member => calm.proper thread (inside member),fun thread member => calm.foreign thread (inside member),
      calm.queue,fun status stopped now thread member => calm.threads status stopped now thread (inside member)⟩
  | keep | spawn | drop => exact calm_move calm allowed.2 taken rfl

/-- A worker that spares the status of a workflow leaves it. -/
theorem spares_effect {work : Work} {broker : Broker} {status : WorkflowStatus} {revoked : List CeleryId} {delivery : Delivery}
    (spares : Spares workflow status revoked delivery work) (now : broker.status workflow = some status) :
    (work.effect broker).status workflow = some status := by
  by_contra changed
  obtain ⟨operation,rfl⟩ := status_effect (fun same => changed (same.trans now))
  obtain ⟨row,stored,rfl⟩ := Option.map_eq_some_iff.mp now
  have bound := (List.getElem?_eq_some_iff.mp stored).1
  refine changed ?_
  unfold Broker.status at now ⊢
  cases operation with
  | saveWorkflow id other =>
    simp only [Work.effect,Operation.effect,List.getElem?_set]
    split
    next same =>
      rw [if_pos (same ▸ bound)]
      exact congrArg some (spares same)
    next => exact now
  | createWorkflow other =>
    simp only [Work.effect,Operation.effect,List.getElem?_append_left bound]
    exact now
  | _ => exact now

theorem installed_calm (workflow : WorkflowId) (templates : List WorkflowTemplate) : Calm workflow (installed templates) := by
  refine ⟨fun _ member => ?_,fun _ member => ?_,fun status stopped now => ?_,fun _ _ _ _ member => ?_⟩
  · cases member
  · cases member
  · cases now
  · cases member

end steps

/-- Where a workflow is stopped only when its chain stands still, no later step of the chain changes
the status it was stopped with. -/
theorem stopped_chain_stays {definitions : Definitions} {registered : String → Bool} {templates : List WorkflowTemplate}
    {workflow : WorkflowId} {events : List (Origin × Work)} {before after : Installation} {index : Nat} {answer : Outside}
    {delivery : Delivery} {thread : Chained Unit} {status : WorkflowStatus}
    (run : Execution definitions registered (stopping workflow)
      (installed templates) events before)
    (obeys : celery before.view (.advance index answer))
    (step : Step machine (Origin.program definitions registered) before (.advance index answer) after)
    (chain : before.threads[index]? = some (.message (.member delivery),thread)) (own : delivery.plan.workflow = workflow)
    (stopped : isStopped status = true) (now : before.shared.status workflow = some status) :
    after.shared.status workflow = some status := by
  have calm : Calm workflow before :=
    run.invariant (Calm workflow) (fun _ _ _ calm allowed step => calm_step calm allowed step) (installed_calm workflow templates)
  have harmless := calm.threads status stopped now _ (List.mem_of_getElem? chain) delivery rfl own
  cases step with
  | advance _ _ origin other work found busy =>
    cases Option.some.inj (chain.symm.trans found)
    have live : before.shared.revoked? (Origin.message (.member delivery)).celery ≠ true := by
      have unrevoked : advancesRevoked before.view (.advance index answer) = false := obeys
      rw [advancesRevoked,System.view_found chain] at unrevoked
      exact Bool.eq_false_iff.mp unrevoked
    exact spares_effect ((harmless.resolve_left live).advance busy).1 now

/-- A definition with one task. -/
def oneTask : Manifest := ⟨[.single "a"],none,none,none⟩

/-- The task of a launched workflow is delivered after its start. -/
def started : List (Line Outside Environment) :=
  [.take (.move (.launch "space.t" (.obj []) 0 none oneTask (.returns .null))),.take (.move (.deliver 0)),
    .finish 0 (.returns .null),.take (.move (.deliver 0))]

/-- A schedule up to a step of a chain, with what holds before and after that step. -/
theorem schedule_step (allowed : Allowed) [∀ view label, Decidable (allowed view label)] (workflow : WorkflowId)
    (schedule : List (Line Outside Environment)) (answer : Outside) (found : Broker → Broker → Bool)
    (computed : ((installed []).execute machine (Origin.program versionOne (fun _ => false)) allowed schedule).any (fun S =>
      ((S.threads[0]?).any (fun thread => thread.1.delivery?.any (fun delivery => delivery.plan.workflow == workflow)) &&
        !advancesRevoked S.view (.advance 0 answer)) &&
      (S.apply machine (Origin.program versionOne (fun _ => false)) (.advance 0 answer)).any
        (fun T => found S.shared T.shared)) = true) :
    ∃ events before after delivery thread, Execution versionOne (fun _ => false) allowed (installed []) events before ∧
      celery before.view (.advance 0 answer) ∧
      Step machine (Origin.program versionOne (fun _ => false)) before (.advance 0 answer) after ∧
      before.threads[0]? = some (.message (.member delivery),thread) ∧ delivery.plan.workflow = workflow ∧
      found before.shared after.shared = true := by
  obtain ⟨events,before,run,facts⟩ := execute_any schedule computed
  obtain ⟨chain,advanced⟩ := Bool.and_eq_true_iff.mp facts
  obtain ⟨member,live⟩ := Bool.and_eq_true_iff.mp chain
  obtain ⟨⟨origin,thread⟩,present,piece⟩ := (Option.any_eq_true _ _).mp member
  obtain ⟨delivery,known,own⟩ := (Option.any_eq_true _ _).mp piece
  obtain ⟨after,applied,holds⟩ := (Option.any_eq_true _ _).mp advanced
  have obeys : advancesRevoked before.view (.advance 0 answer) = false := by simpa using live
  cases delivery_origin known
  exact ⟨events,before,after,delivery,thread,run,obeys,apply_step before after _ applied,present,
    by simpa using own,holds⟩

/-- A cancel comes when the start has saved its status, and the start sends the task, which is revoked. -/
theorem stopped_chain_stays_canceled : ∃ events before after delivery thread,
    Execution versionOne (fun _ => false) (stopping 0) (installed []) events before ∧
    before.threads[0]? = some (.message (.member delivery),thread) ∧ delivery.plan.workflow = 0 ∧
    Step machine (Origin.program versionOne (fun _ => false)) before (.advance 0 (.returns .null)) after ∧
    before.shared.queue.length = 0 ∧ after.shared.queue.length = 1 ∧
    before.shared.status 0 = some .canceled ∧ after.shared.status 0 = some .canceled := by
  obtain ⟨events,before,after,delivery,thread,run,obeys,step,chain,own,found⟩ := schedule_step (stopping 0) 0
    ([.take (.move (.launch "space.t" (.obj []) 0 none oneTask (.returns .null))),.take (.move (.deliver 0))] ++
      List.replicate 2 (.take (.advance 0 (.returns .null))) ++ [.take (.move (.cancel 0)),.finish 1 (.returns .null)])
    (.returns .null) (fun first last => (first.queue.length == 0 && last.queue.length == 1) &&
      first.status 0 == some .canceled) (by decide)
  simp only [Bool.and_eq_true,beq_iff_eq] at found
  obtain ⟨⟨empty,sent⟩,now⟩ := found
  exact ⟨events,before,after,delivery,thread,run,chain,own,step,empty,sent,now,
    stopped_chain_stays run obeys step chain own rfl now⟩

/-- A run in which a member of the chain overwrites a cancel. -/
def OverwritesCancel (status : WorkflowStatus) : Prop :=
  ∃ events before after answer delivery thread,
    Execution versionOne (fun _ => false) celery (installed []) events before ∧ celery before.view (.advance 0 answer) ∧
    Step machine (Origin.program versionOne (fun _ => false)) before (.advance 0 answer) after ∧
    before.threads[0]? = some (.message (.member delivery),thread) ∧ delivery.plan.workflow = 0 ∧
    before.shared.status 0 = some .canceled ∧ after.shared.status 0 = some status

theorem overwrites_cancel {status : WorkflowStatus}
    (computed : ∃ events before after delivery thread,
      Execution versionOne (fun _ => false) celery (installed []) events before ∧
      celery before.view (.advance 0 (.returns .null)) ∧
      Step machine (Origin.program versionOne (fun _ => false)) before (.advance 0 (.returns .null)) after ∧
      before.threads[0]? = some (.message (.member delivery),thread) ∧ delivery.plan.workflow = 0 ∧
      (before.shared.status 0 == some .canceled && after.shared.status 0 == some status) = true) :
    OverwritesCancel status := by
  obtain ⟨events,before,after,delivery,thread,run,obeys,step,chain,own,found⟩ := computed
  obtain ⟨canceled,changed⟩ := Bool.and_eq_true_iff.mp found
  exact ⟨events,before,after,_,delivery,thread,run,obeys,step,chain,own,by simpa using canceled,by simpa using changed⟩

/-- A cancel before the start is overwritten by it, and a cancel before the end by that. -/
theorem canceled_chain_goes_on : OverwritesCancel .progress ∧ OverwritesCancel .success := by
  constructor
  · apply overwrites_cancel
    exact schedule_step celery 0
      [.take (.move (.launch "space.t" (.obj []) 0 none oneTask (.returns .null))),.take (.move (.cancel 0)),
        .finish 0 (.returns .null),.take (.move (.deliver 0)),.take (.advance 0 (.returns .null))] (.returns .null)
      (fun first last => first.status 0 == some .canceled && last.status 0 == some .progress) (by decide)
  · apply overwrites_cancel
    exact schedule_step celery 0
      (started ++ [.finish 0 (.returns .null),.take (.move (.cancel 0)),.finish 0 (.returns .null),
        .take (.move (.deliver 0)),.take (.advance 0 (.returns .null))]) (.returns .null)
      (fun first last => first.status 0 == some .canceled && last.status 0 == some .success) (by decide)

end FinmarsWorkflow.Chain
