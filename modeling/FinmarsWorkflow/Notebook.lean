import FinmarsWorkflow.Interleave.Watch
import FinmarsWorkflow.Python.Dict
import FinmarsWorkflow.Python.Text

/-! Requests that run the code of a user in the process of the server.
Each user id has a session with the variables of each of its files, and each request points
the one `sys.stdout` of the process at a buffer of its own while its code runs. Several
threads of the process answer requests at the same time. -/
namespace FinmarsWorkflow.Notebook
open Interleave Python

/-- `request.user.id`, the key of a user in the schema of its space. One process serves all
spaces, so that users of two spaces may have the same. -/
abbrev UserId := Nat

/-- Where a stream of `sys` writes: to that of the process, or to a buffer of its kind. -/
inductive Stream where
  | process
  | buffer (index : Nat)
deriving DecidableEq

/-- What code does to the process, beside reading its own variables. -/
inductive Action (V : Type) where
  | print (text : String)
  | warn (text : String)
  | assign (name : String) (value : V)
  | figure (image : String)
deriving DecidableEq

/-- An `Exception` with its traceback, or any other exception, such as `SystemExit`. -/
inductive Fault where
  | exception (traceback : String)
  | exit

/-- What a step finds outside: what `storage.open` reads, and whatever the code is told. -/
structure Outside where
  file : Except String String
  reply : String

/-- Code that prints, warns, draws and assigns variables; it does not point the streams of `sys` elsewhere. -/
abbrev Code (V : Type) := Program (Dict String V) (Action V) Outside Fault Unit

/-- A `UserSession`, with the user id that it was made for. -/
structure UserSession where
  user : UserId
  files : Dict String Nat

/-- A dictionary of variables, with the user id and the file that it was made for. -/
structure Context (V : Type) where
  user : UserId
  file : String
  vars : Dict String V

/-- One process: `sessions`, the objects that have been made, the streams of `sys`, the buffers
that have been made for each of them, those of each thread, and the figures of `pyplot`. -/
structure Desk (V : Type) where
  sessions : Dict UserId Nat
  objects : List UserSession
  contexts : List (Context V)
  stdout : Stream
  stderr : Stream
  outputs : List String
  errors : List String
  threads : Dict Nat (Nat × Nat)
  figures : List String

/-- What a request is answered with. -/
inductive Response where
  | detail (result : String)
  | image (data : String)
  | json (data : String)
  | text (data : String)
  | failure (data : String)
  | empty
  | error (text : String)
deriving DecidableEq

inductive Operation (V : Type) where
  | look
  | createSession (user : UserId)
  | createContext (session : Nat) (file : String)
  /-- `sys.stdout = io.StringIO()` -/
  | redirect
  /-- `sys.stdout = stream`, or `sys.stderr` -/
  | point (error : Bool) (stream : Stream)
  | openBuffers (thread : Nat)
  | act (context : Option Nat) (action : Action V)
  | write (buffer : Nat) (text : String)
  /-- `buffer.seek(0)` and `buffer.truncate()` -/
  | reset (error : Bool) (buffer : Nat)
  | closeFigure
  | answer (response : Response)
deriving DecidableEq

section effects
variable {V : Type}

/-- What is written to a stream of the process itself is not kept. -/
def Stream.append (buffers : List String) (text : String) : Stream → List String
  | .process => buffers
  | .buffer index => buffers.modify index (· ++ text)

def Action.effect (context : Option Nat) (desk : Desk V) : Action V → Desk V
  | .print text => {desk with outputs := desk.stdout.append desk.outputs text}
  | .warn text => {desk with errors := desk.stderr.append desk.errors text}
  | .figure image => {desk with figures := desk.figures ++ [image]}
  | .assign name value => match context with
    | some index => {desk with contexts := desk.contexts.modify index (fun context =>
        {context with vars := context.vars.set name value})}
    | none => desk

def Operation.effect : Operation V → Desk V → Desk V
  | .createSession user,desk =>
    {desk with objects := desk.objects ++ [⟨user,.empty⟩],sessions := desk.sessions.set user desk.objects.length}
  | .createContext session file,desk => match desk.objects[session]? with
    | some object => {desk with
        contexts := desk.contexts ++ [⟨object.user,file,.empty⟩]
        objects := desk.objects.set session {object with files := object.files.set file desk.contexts.length}}
    | none => desk
  | .redirect,desk => {desk with outputs := desk.outputs ++ [""],stdout := .buffer desk.outputs.length}
  | .point false stream,desk => {desk with stdout := stream}
  | .point true stream,desk => {desk with stderr := stream}
  | .openBuffers thread,desk => match desk.threads.get? thread with
    | some _ => desk
    | none => {desk with
        outputs := desk.outputs ++ [""]
        errors := desk.errors ++ [""]
        threads := desk.threads.set thread (desk.outputs.length,desk.errors.length)}
  | .act context action,desk => action.effect context desk
  | .write buffer text,desk => {desk with outputs := (Stream.buffer buffer).append desk.outputs text}
  | .reset false buffer,desk => {desk with outputs := desk.outputs.modify buffer (fun _ => "")}
  | .reset true buffer,desk => {desk with errors := desk.errors.modify buffer (fun _ => "")}
  | .closeFigure,desk => {desk with figures := desk.figures.dropLast}
  | .look,desk | .answer _,desk => desk

end effects

abbrev Serving (V α : Type) := Program (Desk V) (Operation V) Outside Fault α

/-- What the texts of code do, and how JSON is read: the source of the first cell of a
notebook, and the output of a file that is JSON. -/
structure Settings (V : Type) where
  code : String → Code V
  cell : String → Except String String
  json : String → Option String

section model
variable {V : Type}

def look {α : Type} (found : Desk V → α) : Serving V α := .step .look (fun desk _ => .pure (found desk))

def perform (operation : Operation V) : Serving V Unit := .step operation (fun _ _ => .pure ())

/-- `if user_id not in sessions: create_session(user_id)` -/
def ensureSession (user : UserId) : Serving V Unit := do
  match ← look (fun desk => desk.sessions.get? user) with
  | some _ => return
  | none => perform (.createSession user)

/-- `sessions[user_id]` -/
def sessionOf (user : UserId) : Serving V Nat := do
  match ← look (fun desk => desk.sessions.get? user) with
  | some session => return session
  | none => .raise (.exception (toString user))

def Desk.context? (desk : Desk V) (session : Nat) (file : String) : Option Nat :=
  desk.objects[session]?.bind (fun object => object.files.get? file)

/-- `if file_path not in self.files: self.files[file_path] = {}` -/
def ensureContext (session : Nat) (file : String) : Serving V Unit := do
  match ← look (fun desk => desk.context? session file) with
  | some _ => return
  | none => perform (.createContext session file)

/-- `UserSession.get_file_context` -/
def getFileContext (session : Nat) (file : String) : Serving V Nat := do
  ensureContext session file
  match ← look (fun desk => desk.context? session file) with
  | some context => return context
  | none => .raise (.exception file)

/-- `exec(code, context)` in a dictionary of a session. -/
def execIn (context : Nat) : Code V → Serving V Unit
  | .pure value => .pure value
  | .raise fault => .raise fault
  | .step action next => .step (.act (some context) action) (fun desk outside =>
      execIn context (next ((desk.contexts[context]?.map Context.vars).getD .empty) outside))

/-- `exec(code, context)` in a dictionary that no one else has. -/
def execAlone : Code V → Dict String V → Serving V Unit
  | .pure value,_ => .pure value
  | .raise fault,_ => .raise fault
  | .step action next,vars => .step (.act none action) (fun _ outside =>
      execAlone (next vars outside) (match action with
        | .assign name value => vars.set name value
        | _ => vars))

/-- `traceback.print_exc(file=redirected_output)`, for an `Exception`. -/
def printTraceback (buffer : Nat) : Except Fault Unit → Serving V Unit
  | .ok () => return
  | .error (.exception traceback) => perform (.write buffer traceback)
  | .error .exit => .raise .exit

/-- Resets `sys.stdout`, and returns what the buffer holds. -/
def giveBack (oldStdout : Stream) (buffer : Nat) : Serving V String := do
  perform (.point false oldStdout)
  look (fun desk => desk.outputs.getD buffer "")

/-- `execute_code`. A fault that is no `Exception` leaves `sys.stdout` where it is. -/
def executeCode (settings : Settings V) (user : UserId) (file code : String) : Serving V String := do
  let session ← sessionOf user
  let context ← getFileContext session file
  let oldStdout ← look Desk.stdout
  let buffer ← (.step .redirect (fun desk _ => .pure desk.outputs.length) : Serving V Nat)
  let result ← (execIn context (settings.code code)).outcome
  printTraceback buffer result
  giveBack oldStdout buffer

/-- The output, as JSON if it is any, or the errors. -/
def Settings.printed (settings : Settings V) (output errors : String) : Response :=
  if output ≠ "" then match settings.json output with
    | some data => .json data
    | none => .text output
  else if errors ≠ "" then .failure errors
  else .empty

/-- What `_execute_code` returns when its code has ended. -/
def collect (settings : Settings V) (output error : Nat) : Serving V Response := do
  let errors ← look (fun desk => desk.errors.getD error "")
  match ← look (fun desk => desk.figures.isEmpty) with
  | false =>
    let image ← look (fun desk => desk.figures.getLastD "")
    perform .closeFigure
    return .image image
  | true =>
    let text ← look (fun desk => desk.outputs.getD output "")
    return settings.printed text errors

/-- The `try` of `_execute_code`. -/
def collectAfter (settings : Settings V) (output error : Nat) (code : Serving V Unit) : Serving V Response := do
  match ← code.outcome with
  | .ok () => collect settings output error
  | .error (.exception traceback) => return .failure traceback
  | .error .exit => .raise .exit

/-- `_execute_code`, in the buffers of a thread. -/
def executeInBuffers (settings : Settings V) (thread : Nat) (code : String) (vars : Dict String V) : Serving V Response := do
  let (output,error) ← (.step (.openBuffers thread) (fun desk _ =>
    .pure ((desk.threads.get? thread).getD (desk.outputs.length,desk.errors.length))) : Serving V (Nat × Nat))
  let oldStdout ← look Desk.stdout
  perform (.point false (.buffer output))
  let oldStderr ← look Desk.stderr
  perform (.point true (.buffer error))
  let result ← (collectAfter settings output error (execAlone (settings.code code) vars)).outcome
  perform (.reset false output)
  perform (.reset true error)
  perform (.point true oldStderr)
  perform (.point false oldStdout)
  .lift result

/-- `execute_file` -/
def executeFile (settings : Settings V) (thread : Nat) (user : UserId) (file : String) (data : V) : Serving V Response := do
  let _ ← sessionOf user
  let content ← (.step .look (fun _ outside => .lift (outside.file.mapError .exception)) : Serving V String)
  let code ← .lift ((if contains ".ipynb" file then settings.cell content else .ok content).mapError .exception)
  executeInBuffers settings thread code (Dict.set .empty "execution_context" data)

end model

/-- A request, with its code or with the data that its file finds as `execution_context`. -/
inductive Request (V : Type) where
  | code (user : UserId) (file code : String)
  | file (user : UserId) (file : String) (data : V)
deriving DecidableEq

def Request.user {V : Type} : Request V → UserId
  | .code user _ _ | .file user _ _ => user

/-- The `file_path` of a request. -/
def Request.filePath {V : Type} : Request V → String
  | .code _ path _ | .file _ path _ => path

structure Origin (V : Type) where
  thread : Nat
  request : Request V
deriving DecidableEq

section machine
variable {V : Type} (settings : Settings V)

/-- The answer of a view, which catches an `Exception`. -/
def respond (program : Serving V Response) : Serving V Unit := do
  match ← program.outcome with
  | .ok response => perform (.answer response)
  | .error (.exception text) => perform (.answer (.error text))
  | .error .exit => .raise .exit

/-- The `try` of a view. -/
def Origin.response (origin : Origin V) : Serving V Response := match origin.request with
  | .code user file code => (executeCode settings user file code).bind (fun output => .pure (.detail output))
  | .file user file data => executeFile settings origin.thread user file data

/-- `CodeExecutionViewSet.create` and `FileExecutionViewSet.create` -/
def Origin.program (origin : Origin V) : Serving V Unit := do
  ensureSession origin.request.user
  respond (origin.response settings)

/-- A thread takes a request when it has none. -/
def react (origin : Origin V) (desk : Desk V) (running : List (Origin V)) : Option (Desk V × Turn (Origin V)) :=
  if running.any (fun other => other.thread == origin.thread) then none else some (desk,.spawn origin)

abbrev Process (V : Type) := System (Origin V) (Program.language (Desk V) (Operation V) Outside Fault)
abbrev Allowed (V : Type) := Condition (Desk V) (Origin V) (Operation V) Outside (Origin V)

abbrev Execution (allowed : Allowed V) (first : Process V) (events : List (Origin V × Operation V)) (last : Process V) : Prop :=
  Run ⟨Operation.effect,react⟩ (L := Program.language (Desk V) (Operation V) Outside Fault) (Origin.program settings) allowed
    first events last

theorem react_cases {origin : Origin V} {desk after : Desk V} {running : List (Origin V)} {turn : Turn (Origin V)}
    (reacts : react origin desk running = some (after,turn)) :
    after = desk ∧ turn = .spawn origin ∧ origin.thread ∉ running.map Origin.thread := by
  unfold react at reacts
  by_cases busy : running.any (fun other => other.thread == origin.thread) = true
  · rw [if_pos busy] at reacts
    cases reacts
  · rw [if_neg busy] at reacts
    cases reacts
    refine ⟨rfl,rfl,fun member => busy ?_⟩
    obtain ⟨other,inside,same⟩ := List.mem_map.mp member
    exact List.any_eq_true.mpr ⟨other,inside,beq_iff_eq.mpr same⟩

end machine

section operations
variable {V : Type} {settings : Settings V} {user : UserId} {file code : String}

/-- What an operation of a request adds to its output. -/
def Operation.told : Operation V → String
  | .act _ (.print text) | .write _ text => text
  | _ => ""

def Operation.redirects : Operation V → Bool
  | .redirect => true
  | _ => false

/-- The operation has to do with `sys.stdout`, or with a buffer behind it. -/
def Operation.disturbs : Operation V → Bool
  | .redirect | .point false _ | .act _ (.print _) | .write _ _ | .reset false _ => true
  | _ => false

/-- What a request does before it has a buffer. -/
def Operation.Prepares : Operation V → Prop
  | .redirect => False
  | .answer response => ∀ output, response ≠ .detail output
  | _ => True

theorem prepares_redirects (operation : Operation V) (prepares : operation.Prepares) : operation.redirects = false := by
  cases operation with
  | redirect => cases prepares
  | _ => rfl

/-- The operation leaves `sys.stdout` where it is, and is no answer. -/
def Operation.Steady : Operation V → Prop
  | .redirect | .point false _ | .answer _ => False
  | _ => True

/-- The operation has nothing to do with sessions, and neither with the stream of a code request. -/
def Operation.Filed : Operation V → Prop
  | .redirect | .answer _ | .createSession _ | .createContext _ _ | .act (some _) _ => False
  | _ => True

/-- The operation does neither. -/
def Operation.Calm : Operation V → Prop
  | .redirect | .point false _ | .answer _ | .createSession _ | .createContext _ _ | .act (some _) _ => False
  | _ => True

theorem calm_steady (operation : Operation V) (calm : operation.Calm) : operation.Steady := by
  cases operation with
  | redirect | answer => cases calm
  | point error => cases error with
    | false => cases calm
    | true => trivial
  | _ => trivial

theorem calm_filed (operation : Operation V) (calm : operation.Calm) : operation.Filed := by
  cases operation with
  | redirect | answer | createSession | createContext => cases calm
  | act context => cases context with
    | none => trivial
    | some => cases calm
  | _ => trivial

theorem filed_prepares (operation : Operation V) (filed : operation.Filed) : operation.Prepares := by
  cases operation with
  | redirect | answer => cases filed
  | _ => trivial

theorem steady_prepares (operation : Operation V) (steady : operation.Steady) : operation.Prepares := by
  cases operation with
  | redirect | answer => cases steady
  | _ => trivial

theorem ensureSession_steady : (ensureSession user : Serving V Unit).Ensures (fun _ => True) Operation.Steady (fun _ => True) := by
  refine ⟨trivial,fun desk _ _ => ?_⟩
  simp only [Program.bind]
  cases desk.sessions.get? user with
  | none => exact ⟨trivial,fun _ _ _ => trivial⟩
  | some => trivial

theorem sessionOf_calm : (sessionOf user : Serving V Nat).Ensures (fun _ => True) Operation.Calm (fun _ => True) := by
  refine ⟨trivial,fun desk _ _ => ?_⟩
  simp only [Program.bind]
  cases desk.sessions.get? user <;> trivial

theorem getFileContext_steady (session : Nat) :
    (getFileContext session file : Serving V Nat).Ensures (fun _ => True) Operation.Steady (fun _ => True) := by
  have ensured : (ensureContext session file : Serving V Unit).Ensures (fun _ => True) Operation.Steady (fun _ => True) := by
    refine ⟨trivial,fun desk _ _ => ?_⟩
    simp only [Program.bind]
    cases desk.context? session file with
    | none => exact ⟨trivial,fun _ _ _ => trivial⟩
    | some => trivial
  refine ensured.andThen (fun _ => ⟨trivial,fun desk _ _ => ?_⟩)
  simp only [Program.bind]
  cases desk.context? session file <;> trivial

/-- The code of a user does nothing to the streams itself, and ends as it would anywhere. -/
theorem execIn_steady (context : Nat) {code : Code V} {post : Except Fault Unit → Prop}
    (ends : code.Ensures (fun _ => True) (fun _ => True) post) :
    (execIn context code).Ensures (fun _ => True) Operation.Steady post := by
  induction code with
  | pure | raise => exact ends
  | step action next ih => exact ⟨trivial,fun _ _ _ => ih _ _ (ends.2 _ _ trivial)⟩

/-- A result that is no answer to a code request. -/
def Plain : Except Fault Response → Prop
  | .ok (.detail _) => False
  | _ => True

theorem printed_plain (settings : Settings V) (output errors : String) : Plain (.ok (settings.printed output errors)) := by
  unfold Settings.printed
  by_cases printed : output = ""
  · rw [if_neg (not_not_intro printed)]
    by_cases silent : errors = ""
    · rw [if_neg (not_not_intro silent)]
      trivial
    · rw [if_pos silent]
      trivial
  · rw [if_pos printed]
    cases settings.json output <;> trivial

theorem collect_calm (out error : Nat) :
    (collect settings out error : Serving V Response).Ensures (fun _ => True) Operation.Calm Plain := by
  refine ⟨trivial,fun _ _ _ => ⟨trivial,fun desk _ _ => ?_⟩⟩
  simp only [Program.bind]
  cases desk.figures.isEmpty with
  | false => exact ⟨trivial,fun _ _ _ => ⟨trivial,fun _ _ _ => trivial⟩⟩
  | true => exact ⟨trivial,fun _ _ _ => printed_plain settings _ _⟩

theorem execAlone_calm (code : Code V) (vars : Dict String V) :
    (execAlone code vars).Ensures (fun _ => True) Operation.Calm (fun _ => True) := by
  induction code generalizing vars with
  | pure | raise => trivial
  | step action next ih => exact ⟨trivial,fun _ _ _ => ih _ _ _⟩

theorem collectAfter_calm (out error : Nat) (code : Code V) (vars : Dict String V) :
    (collectAfter settings out error (execAlone code vars)).Ensures (fun _ => True) Operation.Calm Plain := by
  refine (execAlone_calm code vars).caught.before (fun result => ?_) (fun _ => trivial)
  cases result with
  | ok => exact collect_calm out error
  | error fault => cases fault <;> trivial

/-- A file prints to the buffers of its thread. -/
theorem executeFile_filed (thread : Nat) (data : V) :
    (executeFile settings thread user file data).Ensures (fun _ => True) Operation.Filed Plain := by
  refine (sessionOf_calm.widen calm_filed).before (fun _ => ?_) (fun _ => trivial)
  refine ⟨trivial,fun _ outside _ => ?_⟩
  refine Program.Ensures.before (.lift trivial) (fun content => ?_) (fun _ => trivial)
  refine Program.Ensures.before (.lift trivial) (fun code => ?_) (fun _ => trivial)
  refine ⟨trivial,fun desk _ _ => ?_⟩
  refine ⟨trivial,fun _ _ _ => ⟨trivial,fun _ _ _ => ⟨trivial,fun _ _ _ => ⟨trivial,fun _ _ _ => ?_⟩⟩⟩⟩
  refine (show Program.Ensures _ Operation.Filed _ (fun result => ∀ response, result = .ok response → Plain response) from
    ((collectAfter_calm _ _ _ _).widen calm_filed).outcome ?_).bind (fun result plain => ?_) (fun _ _ => trivial)
  · rintro result plain _ ⟨⟩
    exact plain
  refine ⟨trivial,fun _ _ _ => ⟨trivial,fun _ _ _ => ⟨trivial,fun _ _ _ => ⟨trivial,fun _ _ _ => ?_⟩⟩⟩⟩
  exact .lift (plain result rfl)

/-- A view that knows that it may give each of its answers. -/
theorem respond_watched {τ : Type} {W : Watch (Desk V) (Operation V) τ} {program : Serving V Response} {known : τ}
    (watched : program.Watched W known (fun later result => ∀ response, result = .ok response → W.allows later (.answer response)))
    (errors : ∀ later text, W.allows later (.answer (.error text))) :
    (respond program).Watched W known (fun _ _ => True) := by
  refine watched.handle (fun later result answers => ?_)
  cases result with
  | ok response => exact ⟨answers response rfl,fun _ _ _ => trivial⟩
  | error fault => cases fault with
    | exception text => exact ⟨errors later text,fun _ _ _ => trivial⟩
    | exit => trivial

end operations

section samples

/-- Code that prints its own text and counts, or exits. -/
def sample : Settings Nat where
  code text := .step (.print text) (fun vars _ => .step (.assign "runs" ((vars.get? "runs").getD 0 + 1)) (fun _ _ =>
    if text = "exit" then .raise .exit else .pure ()))
  cell := .ok
  json _ := none

def blank : Desk Nat := ⟨.empty,[],[],.process,.process,[],[],.empty,[]⟩

theorem sample_run (settings : Settings Nat) (allowed : Allowed Nat) [∀ view label, Decidable (allowed view label)] (desk : Desk Nat)
    (events : List (Origin Nat × Operation Nat)) (found : Process Nat → Bool) (schedule : List (Line Outside (Origin Nat)))
    (computed : ((⟨desk,[]⟩ : Process Nat).record ⟨Operation.effect,react⟩ (Origin.program settings) allowed schedule).any
      (fun reached => reached.1 == events && found reached.2) = true) :
    ∃ last, Execution settings allowed ⟨desk,[]⟩ events last ∧ found last = true := by
  obtain ⟨performed,last,run,same⟩ := record_any schedule computed
  obtain ⟨equal,holds⟩ := Bool.and_eq_true_iff.mp same
  have equal : performed = events := beq_iff_eq.mp equal
  subst equal
  exact ⟨last,run,holds⟩

end samples
end FinmarsWorkflow.Notebook
