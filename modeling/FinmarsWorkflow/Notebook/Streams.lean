import FinmarsWorkflow.Notebook

/-! What becomes of `sys.stdout` when several threads answer requests.
A code request knows what its buffer holds for as long as no other thread touches the stream
of the process. What a request finds there it puts back, and so does the next one. -/
namespace FinmarsWorkflow.Notebook
open Interleave Python

section outputs
variable {V : Type}

/-- What a request knows of its output: its buffer, where `sys.stdout` points, and what the buffer holds. -/
inductive Known where
  | early
  | buffered (buffer : Nat) (stdout : Stream) (text : String)

def output : Watch (Desk V) (Operation V) Known where
  sees known desk := match known with
    | .early => True
    | .buffered buffer stdout text => desk.stdout = stdout ∧ desk.outputs[buffer]? = some text
  allows known operation := match known,operation with
    | .early,.answer response => ∀ output, response ≠ .detail output
    | .early,_ => True
    | .buffered _ _ _,.redirect | .buffered _ _ _,.reset false _ => False
    | .buffered buffer stdout _,.act _ (.print _) => stdout = .buffer buffer
    | .buffered buffer _ _,.write other _ => other = buffer
    | .buffered _ _ text,.answer response => ∀ output, response = .detail output → output = text
    | .buffered _ _ _,_ => True
  after known operation desk := match known,operation with
    | .early,.redirect => .buffered desk.outputs.length (.buffer desk.outputs.length) ""
    | .early,_ => .early
    | .buffered buffer _ text,.point false stream => .buffered buffer stream text
    | .buffered buffer stdout text,operation => .buffered buffer stdout (text ++ operation.told)

section watching
variable {buffer : Nat} {stdout : Stream} {text : String} {operation : Operation V} {desk : Desk V}

theorem opened_sees :
    output.sees (.buffered desk.outputs.length (.buffer desk.outputs.length) "") (Operation.redirect.effect desk) :=
  ⟨rfl,by simp [Operation.effect]⟩

/-- An operation that does not disturb leaves what is known of the output. -/
theorem undisturbed_sees (calm : operation.disturbs = false) (sees : output.sees (.buffered buffer stdout text) desk) :
    output.sees (.buffered buffer stdout text) (operation.effect desk) := by
  obtain ⟨points,holds⟩ := sees
  have bound := (List.getElem?_eq_some_iff.mp holds).1
  cases operation with
  | look | createSession | closeFigure | answer => exact ⟨points,holds⟩
  | redirect | write => cases calm
  | point error stream => cases error with
    | false => cases calm
    | true => exact ⟨points,holds⟩
  | reset error other => cases error with
    | false => cases calm
    | true => exact ⟨points,holds⟩
  | createContext session file =>
    simp only [Operation.effect]
    cases desk.objects[session]? <;> exact ⟨points,holds⟩
  | openBuffers thread =>
    simp only [Operation.effect]
    cases desk.threads.get? thread with
    | some => exact ⟨points,holds⟩
    | none => exact ⟨points,(List.getElem?_append_left bound).trans holds⟩
  | act context action => cases action with
    | print => cases calm
    | warn | figure => exact ⟨points,holds⟩
    | assign => cases context <;> exact ⟨points,holds⟩

/-- What a request knows after an operation of its own is so. -/
theorem allowed_sees (allows : output.allows (.buffered buffer stdout text) operation)
    (sees : output.sees (.buffered buffer stdout text) desk) :
    output.sees (output.after (.buffered buffer stdout text) operation desk) (operation.effect desk) := by
  by_cases calm : operation.disturbs = false
  · have same : output.after (.buffered buffer stdout text) operation desk = .buffered buffer stdout (text ++ "") := by
      cases operation with
      | point error => cases error with
        | false => cases calm
        | true => rfl
      | act context action => cases action with
        | print => cases calm
        | _ => rfl
      | write => cases calm
      | _ => rfl
    rw [same,String.append_empty]
    exact undisturbed_sees calm sees
  · obtain ⟨points,holds⟩ := sees
    cases operation with
    | redirect => cases allows
    | look | createSession | createContext | openBuffers | closeFigure | answer => cases calm rfl
    | point error stream => cases error with
      | false => exact ⟨rfl,holds⟩
      | true => cases calm rfl
    | reset error other => cases error with
      | false => cases allows
      | true => cases calm rfl
    | write other more =>
      cases (show other = buffer from allows)
      exact ⟨points,by simp [Operation.effect,Stream.append,Operation.told,holds]⟩
    | act context action => cases action with
      | print more =>
        cases (show stdout = .buffer buffer from allows)
        exact ⟨points,by simp [Operation.effect,Action.effect,points,Stream.append,Operation.told,holds]⟩
      | warn | figure | assign => cases calm rfl

end watching

section programs
variable {settings : Settings V} {user : UserId} {file code : String} {buffer : Nat} {text : String}

theorem prepares_allows (operation : Operation V) (prepares : operation.Prepares) : output.allows .early operation := by
  cases operation with
  | redirect => cases prepares
  | _ => exact prepares

theorem after_early {operation : Operation V} {desk : Desk V} (calm : operation.redirects = false) :
    output.after .early operation desk = .early := by
  cases operation with
  | redirect => cases calm
  | _ => rfl

theorem execIn_watched (context : Nat) (code : Code V) :
    (execIn context code).Watched output (.buffered buffer (.buffer buffer) text)
      (fun known _ => ∃ more, known = .buffered buffer (.buffer buffer) more) := by
  induction code generalizing text with
  | pure => exact ⟨text,rfl⟩
  | raise => exact ⟨text,rfl⟩
  | step action next ih =>
    refine ⟨?_,fun desk outside _ => ih _ _⟩
    cases action with
    | print => rfl
    | _ => trivial

/-- Whether a request has pointed `sys.stdout` at a buffer, which it does once. -/
def once : Watch (Desk V) (Operation V) Bool where
  sees _ _ := True
  allows known operation := known = true → operation.redirects = false
  after known operation _ := known || operation.redirects

/-- A program that prepares has nothing to do with its output. -/
theorem prepares_watched {α : Type} {program : Serving V α} {post : Except Fault α → Prop}
    (prepares : program.Ensures (fun _ => True) Operation.Prepares post) :
    program.Watched output .early (fun known result => known = .early ∧ post result) ∧
      program.Watched once false (fun known _ => known = false) := by
  refine ⟨.fixed prepares prepares_allows ?_,(Program.Watched.fixed (W := once) prepares ?_ ?_).mono (fun _ _ => And.left)⟩
  · exact fun operation _ allowed => after_early (prepares_redirects operation allowed)
  · exact fun _ _ before => by cases before
  · exact fun operation _ allowed => prepares_redirects operation allowed

theorem steady_watched {α : Type} {program : Serving V α}
    (steady : program.Ensures (fun _ => True) Operation.Steady (fun _ => True)) :
    program.Watched output .early (fun known _ => known = .early) ∧
      program.Watched once false (fun known _ => known = false) :=
  (prepares_watched (steady.widen steady_prepares)).imp_left (fun watched => watched.mono (fun _ _ => And.left))

/-- The output of a request holds what the request returns. -/
def Returns (known : Known) : Except Fault String → Prop
  | .ok output => ∃ buffer stdout, known = .buffered buffer stdout output
  | .error _ => True

theorem executeCode_watched :
    (executeCode settings user file code).Watched output .early Returns := by
  refine (steady_watched (sessionOf_calm.widen calm_steady)).1.bind (fun _ session early => ?_) (fun _ _ _ => trivial)
  subst early
  refine (steady_watched (getFileContext_steady session)).1.bind (fun _ context early => ?_) (fun _ _ _ => trivial)
  subst early
  refine ⟨trivial,fun old _ _ => ⟨trivial,fun desk _ _ => ?_⟩⟩
  refine (execIn_watched context (settings.code code)).handle (fun known result running => ?_)
  obtain ⟨text,rfl⟩ := running
  have finish (text : String) : (giveBack old.stdout desk.outputs.length : Serving V String).Watched output
        (.buffered desk.outputs.length (.buffer desk.outputs.length) text) Returns := by
    refine ⟨trivial,fun _ _ _ => ⟨trivial,fun last _ sees => ?_⟩⟩
    obtain ⟨_,holds⟩ := sees
    refine ⟨desk.outputs.length,old.stdout,?_⟩
    change Known.buffered _ _ (text ++ "") = .buffered _ _ (last.outputs.getD _ "")
    rw [String.append_empty,List.getD_eq_getElem?_getD,holds]
    rfl
  cases result with
  | ok => exact finish text
  | error fault => cases fault with
    | exception traceback => exact ⟨rfl,fun _ _ _ => finish _⟩
    | exit => trivial

theorem executeCode_once : (executeCode settings user file code).Watched once false (fun _ _ => True) := by
  refine (steady_watched (sessionOf_calm.widen calm_steady)).2.bind (fun _ session before => ?_) (fun _ _ _ => trivial)
  subst before
  refine (steady_watched (getFileContext_steady session)).2.bind (fun _ context before => ?_) (fun _ _ _ => trivial)
  subst before
  refine ⟨fun before => (by cases before),fun old _ _ => ⟨fun before => (by cases before),fun desk _ _ => ?_⟩⟩
  have calm {α : Type} {program : Serving V α} (ensures : program.Ensures (fun _ => True)
      (fun operation => operation.redirects = false) (fun _ => True)) :
      program.Watched once true (fun known _ => known = true) := by
    refine (Program.Watched.fixed (W := once) ensures ?_ (fun _ _ _ => rfl)).mono (fun _ _ => And.left)
    exact fun _ quiet _ => quiet
  have quiet (operation : Operation V) (steady : operation.Steady) : operation.redirects = false :=
    prepares_redirects operation (steady_prepares operation steady)
  refine (calm ((execIn_steady context (.anything (settings.code code))).widen quiet)).handle (fun _ result after => ?_)
  subst after
  refine (calm ?_).mono (fun _ _ _ => trivial)
  cases result with
  | ok => exact ⟨rfl,fun _ _ _ => ⟨rfl,fun _ _ _ => trivial⟩⟩
  | error fault => cases fault with
    | exception => exact ⟨rfl,fun _ _ _ => ⟨rfl,fun _ _ _ => ⟨rfl,fun _ _ _ => trivial⟩⟩⟩
    | exit => trivial

/-- A request answers its output, or something that is none. -/
theorem response_watched (origin : Origin V) : (origin.response settings).Watched output .early
    (fun known result => ∀ response, result = .ok response → output.allows known (.answer response : Operation V)) := by
  obtain ⟨thread,request⟩ := origin
  cases request with
  | code user file code =>
    refine executeCode_watched.bind (fun known text returned => ?_) (by rintro _ _ _ _ ⟨⟩)
    obtain ⟨buffer,stdout,rfl⟩ := returned
    rintro _ ⟨⟩ _ ⟨⟩
    rfl
  | file user file data =>
    refine (prepares_watched ((executeFile_filed thread data).widen filed_prepares)).1.mono (fun known result plain => ?_)
    obtain ⟨rfl,plain⟩ := plain
    rintro _ rfl _ rfl
    exact plain

theorem program_watched (origin : Origin V) : (origin.program settings).Watched output .early (fun _ _ => True) := by
  refine (steady_watched ensureSession_steady).1.bind (fun _ _ early => ?_) (fun _ _ _ => trivial)
  subst early
  refine respond_watched (response_watched origin) (fun known text => ?_)
  cases known <;> rintro _ ⟨⟩

theorem response_once (origin : Origin V) : (origin.response settings).Watched once false (fun _ _ => True) := by
  obtain ⟨thread,request⟩ := origin
  cases request with
  | code => exact executeCode_once.bind (fun _ _ _ => trivial) (fun _ _ _ => trivial)
  | file user file data =>
    exact (prepares_watched ((executeFile_filed thread data).widen filed_prepares)).2.mono (fun _ _ _ => trivial)

theorem program_once (origin : Origin V) : (origin.program settings).Watched once false (fun _ _ => True) := by
  refine (steady_watched ensureSession_steady).2.bind (fun _ _ before => ?_) (fun _ _ _ => trivial)
  subst before
  exact respond_watched ((response_once origin).mono (fun _ _ _ _ _ _ => rfl)) (fun _ _ _ => rfl)

end programs

section runs
variable {settings : Settings V} {allowed : Allowed V} {first last : Process V} {events : List (Origin V × Operation V)}

/-- What the requests of a thread have added to their outputs. -/
def toldBy (thread : Nat) (events : List (Origin V × Operation V)) : String :=
  String.join ((events.filter (fun event => event.1.thread = thread)).map (fun event => event.2.told))

/-- A thread points `sys.stdout` at no other buffer, and no other thread touches it. -/
def Undisturbed (thread : Nat) (events : List (Origin V × Operation V)) : Prop :=
  ∀ event ∈ events, if event.1.thread = thread then event.2.redirects = false else event.2.disturbs = false

instance (thread : Nat) (events : List (Origin V × Operation V)) : Decidable (Undisturbed thread events) :=
  inferInstanceAs (Decidable (∀ event ∈ events, if event.1.thread = thread then event.2.redirects = false
    else event.2.disturbs = false))

theorem toldBy_concat (thread : Nat) (events : List (Origin V × Operation V)) (origin : Origin V) (operation : Operation V) :
    toldBy thread (events ++ [(origin,operation)]) =
      if origin.thread = thread then toldBy thread events ++ operation.told else toldBy thread events := by
  unfold toldBy
  by_cases same : origin.thread = thread
  · simp [same]
  · simp [same]

theorem undisturbed_concat {thread : Nat} {origin : Origin V} {operation : Operation V}
    (undisturbed : Undisturbed thread (events ++ [(origin,operation)])) : Undisturbed thread events ∧
      if origin.thread = thread then operation.redirects = false else operation.disturbs = false :=
  ⟨fun event member => undisturbed event (List.mem_append_left _ member),
    undisturbed (origin,operation) (List.mem_append_right _ List.mem_cons_self)⟩

theorem after_buffered (buffer : Nat) (stdout : Stream) (text : String) (operation : Operation V) (desk : Desk V) :
    ∃ later, output.after (.buffered buffer stdout text) operation desk = .buffered buffer later (text ++ operation.told) := by
  cases operation with
  | point error stream => cases error with
    | false => exact ⟨stream,congrArg _ String.append_empty.symm⟩
    | true => exact ⟨stdout,rfl⟩
  | _ => exact ⟨stdout,rfl⟩

/-- What a thread knows: nothing before its request has a buffer, and then what it has told
since, where no one has disturbed it. -/
def Follows (events : List (Origin V × Operation V)) (desk : Desk V) (origin : Origin V) (program : Serving V Unit) : Prop :=
  (program.Watched once false (fun _ _ => True) ∧ program.Watched output .early (fun _ _ => True)) ∨
  (program.Watched once true (fun _ _ => True) ∧ ∀ front middle source, events = front ++ (source,.redirect)::middle →
    source.thread = origin.thread → Undisturbed origin.thread middle →
    ∃ buffer stdout, output.sees (.buffered buffer stdout (toldBy origin.thread middle)) desk ∧
      program.Watched output (.buffered buffer stdout (toldBy origin.thread middle)) (fun _ _ => True))

theorem follows_own {desk : Desk V} {origin : Origin V} {program : Serving V Unit} {operation : Operation V} (outside : Outside)
    (follows : Follows events desk origin program)
    (busy : (Program.language (Desk V) (Operation V) Outside Fault).operation program = some operation) :
    Follows (events ++ [(origin,operation)]) (operation.effect desk) origin
      ((Program.language (Desk V) (Operation V) Outside Fault).next program desk outside) := by
  rcases follows with ⟨before,early⟩ | ⟨after,knows⟩
  · have goes := (Program.Watched.advance program before busy).2 desk outside trivial
    have runs := (Program.Watched.advance program early busy).2 desk outside trivial
    cases redirects : operation.redirects with
    | false =>
      rw [after_early redirects] at runs
      refine .inl ⟨?_,runs⟩
      simpa [once,redirects] using goes
    | true =>
      refine .inr ⟨by simpa [once,redirects] using goes,fun front middle source split _ undisturbed => ?_⟩
      rcases concat_split split with ⟨_,same,rfl⟩ | ⟨rest,rfl,_⟩
      · cases same
        exact ⟨_,_,opened_sees,runs⟩
      · have calm := (undisturbed_concat undisturbed).2
        rw [if_pos rfl,redirects] at calm
        cases calm
  · obtain ⟨permits,goes⟩ := Program.Watched.advance program after busy
    have calm : operation.redirects = false := permits rfl
    refine .inr ⟨goes desk outside trivial,fun front middle source split same undisturbed => ?_⟩
    rcases concat_split split with ⟨_,redirects,_⟩ | ⟨rest,rfl,before⟩
    · cases redirects
      cases calm
    · obtain ⟨buffer,stdout,sees,runs⟩ := knows front rest source before same (undisturbed_concat undisturbed).1
      obtain ⟨allows,continues⟩ := Program.Watched.advance program runs busy
      obtain ⟨later,told⟩ := after_buffered buffer stdout (toldBy origin.thread rest) operation desk
      have told : output.after (.buffered buffer stdout (toldBy origin.thread rest)) operation desk =
          .buffered buffer later (toldBy origin.thread (rest ++ [(origin,operation)])) := by
        rw [told,toldBy_concat,if_pos rfl]
      exact ⟨buffer,later,told ▸ allowed_sees allows sees,told ▸ continues desk outside sees⟩

theorem follows_others {desk : Desk V} {origin source : Origin V} {program : Serving V Unit} {operation : Operation V}
    (follows : Follows events desk origin program) (apart : source.thread ≠ origin.thread) :
    Follows (events ++ [(source,operation)]) (operation.effect desk) origin program := by
  refine follows.imp_right (And.imp_right fun knows front middle started split same undisturbed => ?_)
  rcases concat_split split with ⟨_,redirects,_⟩ | ⟨rest,rfl,before⟩
  · cases redirects
    exact absurd same apart
  · obtain ⟨earlier,calm⟩ := undisturbed_concat undisturbed
    obtain ⟨buffer,stdout,sees,runs⟩ := knows front rest started before same earlier
    rw [if_neg apart] at calm
    rw [toldBy_concat,if_neg apart]
    exact ⟨buffer,stdout,undisturbed_sees calm sees,runs⟩

/-- What a code request answers is what it has told, where no other thread has disturbed it. -/
theorem output_told (run : Execution settings allowed first events last) (idle : first.threads = [])
    {front middle back : List (Origin V × Operation V)} {origin answered : Origin V} {text : String}
    (split : events = front ++ (origin,.redirect)::middle ++ (answered,.answer (.detail text))::back)
    (same : answered.thread = origin.thread) (undisturbed : Undisturbed origin.thread middle) :
    text = toldBy origin.thread middle := by
  obtain ⟨S,index,thread,reached,found,busy⟩ := run.performing split
  have follows := (reached.keyed Origin.thread (fun _ _ => True) Follows
    (fun _ _ _ _ _ answer _ follows busy => ⟨trivial,follows_own answer follows busy⟩)
    (fun _ _ _ _ _ _ _ _ _ _ follows apart => follows_others follows apart)
    ?_ idle trivial).2 _ (List.mem_of_getElem? found)
  · rcases follows with ⟨_,early⟩ | ⟨_,knows⟩
    · exact absurd rfl ((Program.Watched.advance thread early busy).1 text)
    · rw [← same] at undisturbed ⊢
      obtain ⟨buffer,stdout,_,runs⟩ := knows front middle origin rfl same.symm undisturbed
      exact (Program.Watched.advance thread runs busy).1 text rfl
  · intro _ view environment after turn _ _ reacts
    obtain ⟨rfl,rfl,fresh⟩ := react_cases reacts
    refine ⟨trivial,fun _ _ follows => follows,?_⟩
    rintro _ ⟨⟩
    exact ⟨fresh,.inl ⟨program_once environment,program_watched environment⟩⟩

/-- A request of one user is answered while another one of another user begins. -/
def interleaved (one two : Origin Nat) : List (Line Outside (Origin Nat)) :=
  .take (.move one)::List.replicate 8 (.take (.advance 0 ⟨.ok "",""⟩)) ++ [.take (.move two)] ++
    List.replicate 3 (.take (.advance 1 ⟨.ok "",""⟩)) ++ [.finish 0 ⟨.ok "",""⟩]

theorem output_told_interleaved : ∃ front middle last, Execution sample (fun _ _ => True) ⟨blank,[]⟩
    (front ++ (⟨1,.code 7 "a.py" "hello"⟩,.redirect)::middle ++ [(⟨1,.code 7 "a.py" "hello"⟩,.answer (.detail "hello"))]) last ∧
    (⟨2,.code 8 "b.py" "world"⟩,.createSession 8) ∈ middle ∧ "hello" = toldBy 1 middle := by
  let one : Origin Nat := ⟨1,.code 7 "a.py" "hello"⟩
  let two : Origin Nat := ⟨2,.code 8 "b.py" "world"⟩
  let front : List (Origin Nat × Operation Nat) := [(one,.look),(one,.createSession 7),(one,.look),(one,.look),
    (one,.createContext 0 "a.py"),(one,.look),(one,.look)]
  let middle : List (Origin Nat × Operation Nat) := [(two,.look),(two,.createSession 8),(two,.look),
    (one,.act (some 0) (.print "hello")),(one,.act (some 0) (.assign "runs" 1)),(one,.point false .process),(one,.look)]
  obtain ⟨last,run,_⟩ := sample_run sample (fun _ _ => True) blank
    (front ++ (one,.redirect)::middle ++ [(one,.answer (.detail "hello"))]) (fun _ => true) (interleaved one two) (by decide)
  have undisturbed : Undisturbed one.thread middle := by decide
  exact ⟨front,middle,last,run,by decide,output_told run rfl rfl rfl undisturbed⟩

end runs
end outputs

section streams
variable {V : Type} {settings : Settings V} {user : UserId} {file code : String}

/-- Where `sys.stdout` points, for a request that no one else disturbs. -/
def pointed : Watch (Desk V) (Operation V) Stream where
  sees known desk := desk.stdout = known
  allows _ _ := True
  after known operation desk := match operation with
    | .redirect => .buffer desk.outputs.length
    | .point false stream => stream
    | _ => known

theorem effect_stdout (operation : Operation V) (desk : Desk V) :
    (operation.effect desk).stdout = pointed.after desk.stdout operation desk := by
  cases operation with
  | point error => cases error <;> rfl
  | reset error => cases error <;> rfl
  | createContext session file =>
    simp only [Operation.effect]
    cases desk.objects[session]? <;> rfl
  | openBuffers thread =>
    simp only [Operation.effect]
    cases desk.threads.get? thread <;> rfl
  | act context action => cases action with
    | assign => cases context <;> rfl
    | _ => rfl
  | _ => rfl

theorem steady_pointed {α : Type} {program : Serving V α} {post : Except Fault α → Prop}
    (steady : program.Ensures (fun _ => True) Operation.Steady post) (known : Stream) :
    program.Watched pointed known (fun later result => later = known ∧ post result) := by
  refine Program.Watched.fixed steady (fun _ _ => trivial) (fun operation desk allowed => ?_)
  cases operation with
  | redirect => cases allowed
  | point error => cases error with
    | false => cases allowed
    | true => rfl
  | _ => rfl

theorem lift_pointed {α : Type} (result : Except Fault α) (known : Stream) :
    (Program.lift result : Serving V α).Watched pointed known (fun later _ => later = known) := by
  cases result <;> rfl

/-- No code ends with an exception that is no `Exception`. -/
def Settings.Ends (settings : Settings V) : Prop :=
  ∀ text, (settings.code text).Ensures (fun _ => True) (fun _ => True) (fun result => result ≠ .error .exit)

theorem executeCode_restores (ends : settings.Ends) (base : Stream) :
    (executeCode settings user file code).Watched pointed base (fun known _ => known = base) := by
  refine (steady_pointed (sessionOf_calm.widen calm_steady) base).bind (fun _ session held => ?_) (fun _ _ held => held.1)
  obtain ⟨rfl,_⟩ := held
  refine (steady_pointed (getFileContext_steady session) _).bind (fun _ context held => ?_) (fun _ _ held => held.1)
  obtain ⟨rfl,_⟩ := held
  refine ⟨trivial,fun old _ sees => ⟨trivial,fun desk _ _ => ?_⟩⟩
  refine (steady_pointed (execIn_steady context (ends code)) _).handle (fun known result ran => ?_)
  have finish (known : Stream) : (giveBack old.stdout desk.outputs.length : Serving V String).Watched pointed known
      (fun later _ => later = old.stdout) := ⟨trivial,fun _ _ _ => ⟨trivial,fun _ _ _ => rfl⟩⟩
  rw [show _ = old.stdout from sees.symm]
  cases result with
  | ok => exact finish known
  | error fault => cases fault with
    | exception traceback => exact ⟨trivial,fun _ _ _ => finish _⟩
    | exit => exact absurd rfl ran.2

/-- The streams are restored in a `finally`, however the code of a file ends. -/
theorem executeFile_restores (base : Stream) (thread : Nat) (data : V) :
    (executeFile settings thread user file data).Watched pointed base (fun known _ => known = base) := by
  refine (steady_pointed (sessionOf_calm.widen calm_steady) base).bind (fun _ _ held => ?_) (fun _ _ held => held.1)
  obtain ⟨rfl,_⟩ := held
  refine ⟨trivial,fun _ outside _ => ?_⟩
  refine (lift_pointed _ _).bind (fun _ content held => ?_) (fun _ _ held => held)
  subst held
  refine (lift_pointed _ _).bind (fun _ code held => ?_) (fun _ _ held => held)
  subst held
  refine ⟨trivial,fun _ _ _ => ⟨trivial,fun old _ sees => ⟨trivial,fun _ _ _ => ⟨trivial,fun _ _ _ =>
    ⟨trivial,fun _ _ _ => ?_⟩⟩⟩⟩⟩
  refine (steady_pointed ((collectAfter_calm _ _ _ _).widen calm_steady) _).handle (fun _ result _ => ?_)
  refine ⟨trivial,fun _ _ _ => ⟨trivial,fun _ _ _ => ⟨trivial,fun _ _ _ => ⟨trivial,fun _ _ _ => ?_⟩⟩⟩⟩
  cases result <;> exact sees

theorem response_restores (ends : settings.Ends) (base : Stream) (origin : Origin V) :
    (origin.response settings).Watched pointed base (fun known _ => known = base) := by
  obtain ⟨thread,request⟩ := origin
  cases request with
  | code => exact (executeCode_restores ends base).bind (fun _ _ restored => restored) (fun _ _ restored => restored)
  | file => exact executeFile_restores base thread _

theorem program_restores (ends : settings.Ends) (base : Stream) (origin : Origin V) :
    (origin.program settings).Watched pointed base (fun known _ => known = base) := by
  refine (steady_pointed ensureSession_steady base).bind (fun later _ held => ?_) (fun _ _ held => held.1)
  obtain ⟨same,_⟩ := held
  subst later
  refine (response_restores ends base origin).handle (fun known result restored => ?_)
  cases result with
  | ok => exact ⟨trivial,fun _ _ _ => restored⟩
  | error fault => cases fault with
    | exception => exact ⟨trivial,fun _ _ _ => restored⟩
    | exit => exact restored

/-- The stream of the process is not put back. -/
def Operation.Strays (operation : Operation V) : Prop := operation ≠ .point false .process

theorem stray_effect {operation : Operation V} {desk : Desk V} (strays : operation.Strays)
    (lost : desk.stdout ≠ .process) :
    (operation.effect desk).stdout ≠ .process := by
  rw [effect_stdout]
  cases operation with
  | redirect => exact nofun
  | point error stream => cases error with
    | false =>
      rintro rfl
      exact strays rfl
    | true => exact lost
  | _ => exact lost

theorem steady_strays {α : Type} {program : Serving V α} {post : Except Fault α → Prop}
    (steady : program.Ensures (fun _ => True) Operation.Steady post) :
    program.Ensures (fun desk => desk.stdout ≠ .process) Operation.Strays (fun _ => True) := by
  refine steady.mono (fun _ _ => trivial) (fun operation allowed => ?_) (fun _ _ => trivial)
  rintro rfl
  cases allowed

theorem executeCode_strays : (executeCode settings user file code).Ensures (fun desk => desk.stdout ≠ .process)
    Operation.Strays (fun _ => True) := by
  refine (steady_strays (sessionOf_calm.widen calm_steady)).andThen (fun session => ?_)
  refine (steady_strays (getFileContext_steady session)).andThen (fun context => ?_)
  refine ⟨nofun,fun old _ lost => ⟨nofun,fun desk _ _ => ?_⟩⟩
  have finish : (giveBack old.stdout desk.outputs.length : Serving V String).Ensures
      (fun desk => desk.stdout ≠ .process) Operation.Strays (fun _ => True) := by
    exact ⟨fun same => lost (Operation.point.inj same).2,fun _ _ _ => ⟨nofun,fun _ _ _ => trivial⟩⟩
  refine (steady_strays (execIn_steady context (.anything (settings.code code)))).caught.andThen (fun result => ?_)
  cases result with
  | ok => exact finish
  | error fault => cases fault with
    | exception => exact ⟨nofun,fun _ _ _ => finish⟩
    | exit => trivial

theorem executeFile_strays (thread : Nat) (data : V) : (executeFile settings thread user file data).Ensures
    (fun desk => desk.stdout ≠ .process) Operation.Strays (fun _ => True) := by
  refine (steady_strays (sessionOf_calm.widen calm_steady)).andThen (fun _ => ⟨nofun,fun _ outside _ => ?_⟩)
  refine Program.Ensures.andThen (.lift trivial) (fun content => Program.Ensures.andThen (.lift trivial) (fun code => ?_))
  refine ⟨nofun,fun _ _ _ => ⟨nofun,fun old _ lost => ⟨nofun,fun _ _ _ => ⟨nofun,fun _ _ _ => ⟨nofun,fun _ _ _ => ?_⟩⟩⟩⟩⟩
  refine (steady_strays ((collectAfter_calm _ _ _ _).widen calm_steady)).caught.andThen (fun result => ?_)
  refine ⟨nofun,fun _ _ _ => ⟨nofun,fun _ _ _ => ⟨nofun,fun _ _ _ => ⟨fun same => ?_,fun _ _ _ => .lift trivial⟩⟩⟩⟩
  exact lost (Operation.point.inj same).2

theorem response_strays (origin : Origin V) :
    (origin.response settings).Ensures (fun desk => desk.stdout ≠ .process) Operation.Strays (fun _ => True) := by
  obtain ⟨thread,request⟩ := origin
  cases request with
  | code => exact executeCode_strays.andThen (fun _ => trivial)
  | file => exact executeFile_strays thread _

theorem program_strays (origin : Origin V) :
    (origin.program settings).Ensures (fun desk => desk.stdout ≠ .process) Operation.Strays (fun _ => True) := by
  refine (steady_strays ensureSession_steady).andThen (fun _ => (response_strays origin).caught.andThen (fun result => ?_))
  cases result with
  | ok => exact ⟨nofun,fun _ _ _ => trivial⟩
  | error fault => cases fault with
    | exception => exact ⟨nofun,fun _ _ _ => trivial⟩
    | exit => trivial

/-- A request comes when no other one is being answered. -/
def Alone : Allowed V
  | view,.move _ => view.threads = []
  | _,_ => True

instance (view : View (Desk V) (Origin V) (Operation V)) (label : Label Outside (Origin V)) : Decidable (Alone view label) :=
  match label with
  | .move _ => decidable_of_iff (view.threads.isEmpty = true) List.isEmpty_iff
  | .advance _ _ => .isTrue trivial
  | .close _ => .isTrue trivial

section runs
variable {allowed : Allowed V} {first last : Process V} {events : List (Origin V × Operation V)}

/-- At rest `sys.stdout` is where it was, and the one request puts it back. -/
inductive Solitary (base : Stream) (S : Process V) : Prop
  | rest (idle : S.threads = []) (holds : S.shared.stdout = base)
  | one (origin : Origin V) (program : Serving V Unit) (same : S.threads = [(origin,program)])
    (restores : program.Watched pointed S.shared.stdout (fun known _ => known = base))

theorem only_found {A : Type} {item found : A} {index : Nat} (there : [item][index]? = some found) : index = 0 ∧ item = found := by
  cases index with
  | zero => exact ⟨rfl,Option.some.inj there⟩
  | succ => cases there

theorem solitary_step {base : Stream} {before after : Process V} {label : Label Outside (Origin V)} (ends : settings.Ends)
    (solitary : Solitary base before) (alone : Alone before.view label)
    (step : Step ⟨Operation.effect,react⟩ (L := Program.language (Desk V) (Operation V) Outside Fault)
      (Origin.program settings) before label after) : Solitary base after := by
  cases step with
  | advance index answer origin thread operation found busy => cases solitary with
    | rest idle => simp [idle] at found
    | one source program same restores =>
      rw [same] at found
      obtain ⟨rfl,inside⟩ := only_found found
      cases inside
      have continues := (Program.Watched.advance thread restores busy).2 before.shared answer rfl
      refine .one origin _ (by rw [same]; rfl) ?_
      rw [effect_stdout]
      exact continues
  | close index origin thread found ended => cases solitary with
    | rest idle => simp [idle] at found
    | one source program same restores =>
      rw [same] at found
      obtain ⟨rfl,inside⟩ := only_found found
      cases inside
      refine .rest (by rw [same]; rfl) ?_
      cases thread with
      | pure | raise => exact restores
      | step => cases ended
  | keep environment changed reacts =>
    cases (react_cases reacts).2.1
  | spawn environment changed origin reacts =>
    obtain ⟨rfl,same,_⟩ := react_cases reacts
    cases same
    have none_left : before.threads = [] := List.map_eq_nil_iff.mp alone
    cases solitary with
    | rest _ holds =>
      refine .one environment _ (by rw [none_left]; rfl) ?_
      rw [holds]
      exact program_restores ends base environment
    | one source program same => simp [none_left] at same
  | drop environment changed index reacts =>
    cases (react_cases reacts).2.1

/-- A `sys.stdout` that is no longer that of the process is lost for good. It comes to that only
where code exits or requests overlap. -/
theorem stdout_lost (run : Execution settings allowed first events last) (idle : first.threads = []) :
    (first.shared.stdout ≠ .process → last.shared.stdout ≠ .process) ∧
    (settings.Ends → (∀ view label, allowed view label → Alone view label) → last.threads = [] →
      last.shared.stdout = first.shared.stdout) := by
  refine ⟨fun lost => ?_,fun ends alone rest => ?_⟩
  · refine run.relies program_strays ?_ ?_ idle lost
    · exact fun view _ _ _ operation lost _ _ strays => stray_effect strays lost
    · intro view environment after turn lost _ reacts
      rw [(react_cases reacts).1]
      exact lost
  · have solitary := (run.mono alone).invariant (Solitary first.shared.stdout)
      (fun _ _ _ solitary alone step => solitary_step ends solitary alone step) (.rest idle rfl)
    cases solitary with
    | rest _ holds => exact holds
    | one _ _ same => simp [rest] at same

/-- Code that only prints. -/
def polite : Settings Nat := {sample with code := fun text => .step (.print text) (fun _ _ => .pure ())}

theorem polite_ends : polite.Ends := fun _ => ⟨trivial,fun _ _ _ => nofun⟩

/-- A request that exits, one that comes later, and two requests that are answered one after the other. -/
theorem stdout_lost_exit : (∃ middle last front back, Execution sample (fun _ _ => True) ⟨blank,[]⟩ front middle ∧
      middle.shared.stdout = .buffer 0 ∧ Execution sample (fun _ _ => True) middle back last ∧ back ≠ [] ∧
      last.shared.stdout ≠ .process) ∧
    ∃ last events, Execution polite Alone ⟨blank,[]⟩ events last ∧ events ≠ [] ∧ last.shared.stdout = .process := by
  let one : Origin Nat := ⟨1,.code 7 "a.py" "exit"⟩
  let two : Origin Nat := ⟨2,.code 8 "b.py" "hello"⟩
  refine ⟨?_,?_⟩
  · have computed : (((⟨blank,[]⟩ : Process Nat).execute ⟨Operation.effect,react⟩ (Origin.program sample) (fun _ _ => True)
        [.take (.move one),.finish 0 ⟨.ok "",""⟩]).any (fun middle =>
          middle.threads.isEmpty && middle.shared.stdout == .buffer 0 &&
          ((middle.record ⟨Operation.effect,react⟩ (Origin.program sample) (fun _ _ => True)
            [.take (.move two),.finish 0 ⟨.ok "",""⟩]).any (fun reached => !reached.1.isEmpty)))) = true := by decide
    obtain ⟨front,middle,run,found⟩ := execute_any _ computed
    obtain ⟨rest,continues⟩ := Bool.and_eq_true_iff.mp found
    obtain ⟨idle,strays⟩ := Bool.and_eq_true_iff.mp rest
    obtain ⟨back,last,later,some_⟩ := record_any _ continues
    have strays : middle.shared.stdout = .buffer 0 := beq_iff_eq.mp strays
    refine ⟨middle,last,front,back,run,strays,later,?_,(stdout_lost later (List.isEmpty_iff.mp idle)).1 ?_⟩
    · rintro rfl
      cases some_
    · rw [strays]
      exact nofun
  · have computed : (((⟨blank,[]⟩ : Process Nat).record ⟨Operation.effect,react⟩ (Origin.program polite) Alone
        [.take (.move one),.finish 0 ⟨.ok "",""⟩,.take (.move two),.finish 0 ⟨.ok "",""⟩]).any
          (fun reached => reached.2.threads.isEmpty && !reached.1.isEmpty)) = true := by decide
    obtain ⟨events,last,run,found⟩ := record_any _ computed
    obtain ⟨idle,some_⟩ := Bool.and_eq_true_iff.mp found
    refine ⟨last,events,run,?_,(stdout_lost run rfl).2 polite_ends (fun _ _ alone => alone) (List.isEmpty_iff.mp idle)⟩
    rintro rfl
    cases some_

end runs
end streams
end FinmarsWorkflow.Notebook
