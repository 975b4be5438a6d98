import FinmarsWorkflow.Cancel
import FinmarsWorkflow.Routes

/-! A template that is edited, and the runs of it that are going on.
Messages carry the graph that was read when the workflow was opened, but a finished
task and a request to resume read the template again. Where no update changes the
data between the opening and the end, all of them find one graph. -/
namespace FinmarsWorkflow
open Interleave Relation

/-- The workflow has finished, and nothing of it or of a descendant is queued or at work. -/
def atRest (workflow : WorkflowId) (view : Seen) : Bool :=
  deserted view.shared view.threads workflow && (view.shared.workflows[workflow]?).any (fun row => row.status.terminal)

/-- An update changes the data of the workflow's template only before it is opened or when it is over. -/
def editedAtRest (workflow : WorkflowId) : Allowed := fun view label =>
  reshapes workflow view label = true → (unopened view.shared workflow || atRest workflow view) = true

instance (workflow : WorkflowId) (view : Seen) (label : Action) : Decidable (editedAtRest workflow view label) :=
  inferInstanceAs (Decidable (_ → _))

/-- One graph accounts for all that a run has done for a workflow. Its messages carry this graph and
go to nodes it leads to, and its tasks were made for such nodes. -/
structure OneGraph (events : List (Origin × Operation)) (db : Db) (workflow : WorkflowId) (g : Graph) : Prop where
  messages : ∀ origin job, (origin,.send (.processNextNode job)) ∈ events → job.workflow = workflow →
    job.graph = g ∧ Leads events workflow g job.currentNodeId
  tasks : ∀ (id : TaskId) (task : Task), db.tasks[id]? = some task → task.workflow = workflow →
    ∃ node, g.node? node.id = some node ∧ task.nodeId = some node.id ∧ task.name = taskName node ∧
      task.sourceCode = taskSourceCode node ∧ Leads events workflow g node.id

section graphs
variable {definitions : Definitions} {events later : List (Origin × Operation)} {workflow : WorkflowId} {g : Graph}

theorem Leads.mono {node : NodeId} (leads : Leads events workflow g node) (keeps : events ⊆ later) :
    Leads later workflow g node := by
  rcases leads with start | ⟨source,retval,nodeIds,⟨origin,id,task,saved,rest⟩,selected,member⟩
  · exact .inl start
  · exact .inr ⟨source,retval,nodeIds,⟨origin,id,task,keeps saved,rest⟩,selected,member⟩

theorem steered_oneGraph {db : Db} (rows : SteeredRows events db workflow) (graph : db.graph workflow = some g) :
    OneGraph events db workflow g := by
  refine ⟨fun origin job sent same => ?_,fun id task stored owner => ?_⟩
  · obtain ⟨carried,_,other,found,leads⟩ := rows.sent origin _ sent same
    cases Option.some.inj (graph.symm.trans found)
    exact ⟨Option.some.inj (carried.symm.trans graph),leads⟩
  · obtain ⟨other,node,found,known,named,name,code,_,another,again,leads⟩ := rows.tasks id task.key (taskKey_of_stored stored) owner
    cases Option.some.inj (graph.symm.trans found)
    cases Option.some.inj (graph.symm.trans again)
    exact ⟨node,known,named,name,code,leads⟩

/-- A workflow that is over is left alone by all threads. -/
theorem atRest_quiet {S : Controlled definitions} (sound : Sound S) (lone : Lone S) (ended : atRest workflow S.view = true) :
    Quiet S workflow ∧ ∀ thread ∈ S.threads, ∀ message, thread.1 = .message message →
      ¬S.shared.Above message.workflow workflow := by
  obtain ⟨idle,finished⟩ := Bool.and_eq_true_iff.mp ended
  obtain ⟨row,stored,terminal⟩ := (Option.any_eq_true _ _).mp finished
  have rows (child : WorkflowId) (below : S.shared.Above child workflow) (other : child ≠ workflow) :
      ∃ row, S.shared.workflows[child]? = some row ∧ row.status.terminal = true := deserted_rows sound idle below other
  simp only [deserted,Bool.and_eq_true,List.all_eq_true,Bool.not_eq_true'] at idle
  have free (thread : Origin × Control) (member : thread ∈ S.threads) :=
    unengaged sound.shared (sound.threads _ member).2 (lone _ member)
      (idle.1.2 (thread.1,Control.operation thread.2) (List.mem_map.mpr ⟨thread,member,rfl⟩))
  refine ⟨⟨⟨?_,fun message queued => without_above sound.shared (idle.1.1 message queued),fun thread member => (free thread member).1,
    fun thread member engaged => .inl ((free thread member).2.1 engaged)⟩,fun child below => ?_⟩,
    fun thread member => (free thread member).2.2⟩
  · change S.shared.workflows[workflow]? = some row at stored
    simp [Db.workflowKey,stored]
  · by_cases same : child = workflow
    · exact same ▸ ⟨row,stored,terminal⟩
    · exact rows child below same

/-- A message that no thread sends for a quiet family is never sent. -/
theorem quiet_sends {allowed : Allowed} {first last : Controlled definitions}
    (run : Run machine Origin.control allowed first events last) (sound : Sound first) (quiet : Quiet first workflow)
    (workers : ∀ thread ∈ first.threads, ∀ message, thread.1 = .message message →
      ¬first.shared.Above message.workflow workflow) :
    ∀ origin message, (origin,.send message) ∈ events → message.workflow ≠ workflow := by
  refine (run.recorded (fun events S => (Sound S ∧ Quiet S workflow ∧ ∀ thread ∈ S.threads, ∀ message,
    thread.1 = .message message → ¬S.shared.Above message.workflow workflow) ∧
      ∀ origin message, (origin,.send message) ∈ events → message.workflow ≠ workflow) ?_
    ⟨⟨sound,quiet,workers⟩,fun _ _ member => absurd member List.not_mem_nil⟩).2
  rintro events before label after ⟨⟨sound,quiet,workers⟩,silent⟩ _ step
  obtain ⟨still,keeps⟩ := quiet_step sound quiet (workers_once workers) step
  refine ⟨⟨(sound_step sound step).1,still,workers_step quiet.calm keeps.family workers step⟩,fun origin message sent => ?_⟩
  rcases List.mem_append.mp sent with old | new
  · exact silent origin message old
  · rintro rfl
    obtain ⟨index,answer,origin,control,operation,found,busy,same,_⟩ := event_elim new
    cases same
    exact quiet.calm.outbox _ (List.mem_of_getElem? found) message (send_outbox busy) .refl

/-- What is there of a quiet family stays, and nothing is sent for it. -/
theorem OneGraph.quiet {db last : Db} (one : OneGraph events db workflow g) (kept : Kept workflow db last)
    (silent : ∀ origin message, (origin,.send message) ∈ later → message.workflow ≠ workflow) :
    OneGraph (events ++ later) last workflow g := by
  have keeps : events ⊆ events ++ later := List.subset_append_left _ _
  refine ⟨fun origin job sent same => ?_,fun id task stored owner => ?_⟩
  · rcases List.mem_append.mp sent with old | new
    · obtain ⟨carried,leads⟩ := one.messages origin job old same
      exact ⟨carried,leads.mono keeps⟩
    · exact absurd same (silent origin _ new)
  · obtain ⟨node,known,named,name,code,leads⟩ := one.tasks id task (kept.tasks id task (owner ▸ .refl) stored) owner
    exact ⟨node,known,named,name,code,leads.mono keeps⟩

theorem Kept.task_iff {db last : Db} (kept : Kept workflow db last) (grows : Grows db last) {id : TaskId} {task : Task}
    (owner : task.workflow = workflow) : last.tasks[id]? = some task ↔ db.tasks[id]? = some task := by
  refine ⟨kept.tasks id task (owner ▸ .refl),fun stored => ?_⟩
  obtain ⟨row,there,key⟩ := Option.map_eq_some_iff.mp (grows.task id task.key (taskKey_of_stored stored))
  have home : row.workflow = workflow := (congrArg TaskKey.workflow key).trans owner
  cases Option.some.inj (stored.symm.trans (kept.tasks id row (home ▸ .refl) there))
  exact there

end graphs

/-- From a state on a run leaves the workflow's data alone until it stops or the workflow is over,
and the tasks that the workflow has by then are those it keeps. -/
def AsUnedited (definitions : Definitions) (workflow : WorkflowId) (g : Graph) (middle last : Installation) : Prop :=
  ∃ events between, Execution definitions (editedBefore workflow) middle events between ∧
    between.shared.graph workflow = some g ∧ (between = last ∨ atRest workflow between.view = true) ∧
    ∀ (id : TaskId) (task : Task), task.workflow = workflow →
      (last.shared.tasks[id]? = some task ↔ between.shared.tasks[id]? = some task)

/-- In every run in which the data of the workflow's template changes only before it is opened and
when it is over, all that is dispatched follows the data that it was opened with, and all that
reads the template on the way finds this data. -/
theorem run_follows_one_graph (definitions : Definitions) (templates : List WorkflowTemplate) (workflow : WorkflowId)
    (front back : List (Origin × Operation)) (middle last : Installation) (g : Graph)
    (head : Execution definitions (editedBefore workflow) (installed templates) front middle)
    (begun : Begun middle.shared workflow) (graph : middle.shared.graph workflow = some g)
    (tail : Execution definitions (editedAtRest workflow) middle back last) :
    OneGraph (front ++ back) last.shared workflow g ∧ AsUnedited definitions workflow g middle last := by
  obtain ⟨near,run,alike⟩ := execution_follow head
  have steering := steering_run run
  have unedited {later : List (Origin × Operation)} {between : Installation}
      (rest : Execution definitions (editedBefore workflow) middle later between) :
      ∃ reached : Controlled definitions, Alike between reached ∧ Sound reached ∧ Lone reached ∧
        between.shared.graph workflow = some g ∧ OneGraph (front ++ later) between.shared workflow g := by
    obtain ⟨reached,follows,same⟩ := rest.follow origin_simulated alike
    obtain ⟨sound,lone⟩ := lone_run (run.trans follows) (unused_sound templates) (unused_lone definitions templates)
    obtain ⟨_,kept⟩ := begun_run follows steering.sound steering.statused (alike.shared ▸ begun)
    have found : reached.shared.graph workflow = some g := by
      rw [kept,← alike.shared]
      exact graph
    refine ⟨reached,same,sound,lone,same.shared ▸ found,?_⟩
    rw [same.shared]
    exact steered_oneGraph (steering_run (run.trans follows)).rows found
  have meets (view : Seen) (label : Action) (allowed : editedAtRest workflow view label) :
      editedBefore workflow view label ∨ atRest workflow view = true := by
    by_cases ended : atRest workflow view = true
    · exact .inr ended
    · refine .inl (fun edits => (Bool.or_eq_true_iff.mp (allowed edits)).resolve_right ended)
  rcases tail.until meets with whole | ⟨later,rest,between,first,ended,second,rfl⟩
  · obtain ⟨reached,_,_,_,found,one⟩ := unedited whole
    exact ⟨one,back,last,whole,found,.inl rfl,fun _ _ _ => Iff.rfl⟩
  · obtain ⟨reached,same,sound,lone,found,one⟩ := unedited first
    obtain ⟨final,goes,like⟩ := second.follow origin_simulated same
    obtain ⟨quiet,workers⟩ := atRest_quiet sound lone (same.view ▸ ended)
    have kept := quiet_run goes sound quiet workers
    have grows := (sound_run goes sound).2
    rw [← same.shared,← like.shared] at kept grows
    rw [← List.append_assoc]
    exact ⟨one.quiet kept (quiet_sends goes sound quiet workers),later,between,first,found,.inr ended,
      fun id task owner => kept.task_iff grows owner⟩

/-- The first workflow has been started, with this data. -/
def startedWith (g : Graph) (S : Installation) : Bool :=
  (S.shared.workflows[0]?).any (fun row => row.status != .init) && S.shared.graph 0 == some g

theorem startedWith_begun {g : Graph} {S : Installation} (started : startedWith g S = true) :
    Begun S.shared 0 ∧ S.shared.graph 0 = some g := by
  obtain ⟨any,graph⟩ := Bool.and_eq_true_iff.mp started
  obtain ⟨row,stored,status⟩ := (Option.any_eq_true _ _).mp any
  exact ⟨⟨row,stored,by simpa using status⟩,beq_iff_eq.mp graph⟩

/-- A schedule of the first workflow up to its opening, and one that goes on from there. -/
theorem edit_schedule (templates : List WorkflowTemplate) (g : Graph) (allowed : Allowed)
    [∀ view label, Decidable (allowed view label)] (first second : Schedule) (final : Installation → Bool)
    (computed : ((installed templates).execute machine (Origin.program versionOne) (editedBefore 0) first).any (fun S =>
      startedWith g S && (S.execute machine (Origin.program versionOne) allowed second).any final) = true) :
    ∃ front back middle last, Execution versionOne (editedBefore 0) (installed templates) front middle ∧
      Begun middle.shared 0 ∧ middle.shared.graph 0 = some g ∧
      Execution versionOne allowed middle back last ∧ final last = true := by
  obtain ⟨front,middle,head,found⟩ := schedule_execution versionOne (editedBefore 0) templates first _ computed
  obtain ⟨started,continues⟩ := Bool.and_eq_true_iff.mp found
  obtain ⟨back,last,tail,ends⟩ := execute_any second continues
  obtain ⟨begun,graph⟩ := startedWith_begun started
  exact ⟨front,back,middle,last,head,begun,graph,tail,ends⟩

/-- The data that an update puts in the place of two nodes in a row. -/
def detour : Graph := ⟨[codeNode "a",codeNode "c"],[codeConnection "a" "c"]⟩

def launched : Schedule := served (.launch "space.t" (.obj []) 0 none)

/-- The template is updated before the opening and after the end, and the run follows the
data in between. -/
theorem run_follows_chain : ∃ front back middle last,
    Execution versionOne (editedAtRest 0) middle back last ∧ last.shared.graph 0 = some detour ∧
    last.shared.tasks.length = 2 ∧ OneGraph (front ++ back) last.shared 0 twoNodes ∧
    AsUnedited versionOne 0 twoNodes middle last := by
  obtain ⟨front,back,middle,last,head,begun,graph,tail,ends⟩ := edit_schedule [⟨"t",0,detour⟩] twoNodes (editedAtRest 0)
    (launched ++ served (.updateTemplate 0 twoNodes) ++ processed 0 .null)
    (processed 0 .null ++ processed 0 .null ++ served (.updateTemplate 0 detour))
    (fun S => decide (S.shared.graph 0 = some detour ∧ S.shared.tasks.length = 2)) (by decide)
  obtain ⟨edited,length⟩ := of_decide_eq_true ends
  obtain ⟨one,unedited⟩ := run_follows_one_graph versionOne [⟨"t",0,detour⟩] 0 front back middle last twoNodes head begun graph tail
  exact ⟨front,back,middle,last,tail,edited,length,one,unedited⟩

/-- An update while the first node is queued: the task of the first node reads the template
again, and the run goes on to a node that the opened graph does not have. -/
theorem edited_run_leaves_graph : ∃ front back middle last,
    Execution versionOne (editedBefore 0) (installed [⟨"t",0,twoNodes⟩]) front middle ∧ Begun middle.shared 0 ∧
    middle.shared.graph 0 = some twoNodes ∧ Execution versionOne anything middle back last ∧
    ¬OneGraph (front ++ back) last.shared 0 twoNodes := by
  obtain ⟨front,back,middle,last,head,begun,graph,tail,ends⟩ := edit_schedule [⟨"t",0,twoNodes⟩] twoNodes anything opened
    (served (.updateTemplate 0 detour) ++ processed 0 .null ++ processed 0 .null)
    (fun S => (S.shared.tasks[1]?).any (fun task => task.workflow == 0 && task.nodeId == some "c")) (by decide)
  refine ⟨front,back,middle,last,head,begun,graph,tail,fun one => ?_⟩
  obtain ⟨task,stored,holds⟩ := (Option.any_eq_true _ _).mp ends
  simp only [Bool.and_eq_true,beq_iff_eq] at holds
  obtain ⟨node,known,named,_⟩ := one.tasks 1 task stored holds.1
  have same : node.id = "c" := Option.some.inj (named.symm.trans holds.2)
  have absent : twoNodes.node? "c" = none := by decide
  cases absent.symm.trans (same ▸ known)

end FinmarsWorkflow
