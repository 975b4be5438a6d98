import FinmarsWorkflow.Interleave.Growth
import FinmarsWorkflow.Notebook

/-! Whose variables the code of a request finds.
Sessions and dictionaries of variables stay with the user id and the file that they were made for.
Requests of one user id that come one after another find the same ones again. -/
namespace FinmarsWorkflow.Notebook
open Interleave Python

section notebooks
variable {V : Type} {settings : Settings V} {user : UserId} {file code : String} {desk later : Desk V}

/-- The sessions are of their user ids, and the variables of theirs and of their files. -/
structure Owned (desk : Desk V) : Prop where
  sessions : ∀ user session, desk.sessions.get? user = some session →
    ∃ files, desk.objects[session]? = some ⟨user,files⟩
  files : ∀ (session : Nat) (object : UserSession) (file : String) (context : Nat), desk.objects[session]? = some object →
    object.files.get? file = some context → ∃ vars, desk.contexts[context]? = some ⟨object.user,file,vars⟩

/-- Sessions and variables stay whose they are. -/
structure Grows (desk later : Desk V) : Prop where
  objects : ∀ (session : Nat) (user : UserId) (files : Dict String Nat), desk.objects[session]? = some ⟨user,files⟩ →
    ∃ more, later.objects[session]? = some ⟨user,more⟩
  contexts : ∀ (context : Nat) (user : UserId) (file : String) (vars : Dict String V),
    desk.contexts[context]? = some ⟨user,file,vars⟩ → ∃ more, later.contexts[context]? = some ⟨user,file,more⟩

theorem Grows.refl (desk : Desk V) : Grows desk desk :=
  ⟨fun _ _ files found => ⟨files,found⟩,fun _ _ _ vars found => ⟨vars,found⟩⟩

theorem Grows.trans {last : Desk V} (first : Grows desk later) (second : Grows later last) : Grows desk last := by
  refine ⟨fun session user files found => ?_,fun context user file vars found => ?_⟩
  · obtain ⟨_,kept⟩ := first.objects session user files found
    exact second.objects session user _ kept
  · obtain ⟨_,kept⟩ := first.contexts context user file vars found
    exact second.contexts context user file _ kept

/-- An operation that has nothing to do with sessions, apart from the values of variables. -/
def Operation.Apart : Operation V → Prop
  | .createSession _ | .createContext _ _ => False
  | _ => True

theorem apart_effect {operation : Operation V} (apart : operation.Apart) (desk : Desk V) :
    (operation.effect desk).sessions = desk.sessions ∧ (operation.effect desk).objects = desk.objects := by
  cases operation with
  | createSession | createContext => cases apart
  | point error => cases error <;> exact ⟨rfl,rfl⟩
  | reset error => cases error <;> exact ⟨rfl,rfl⟩
  | openBuffers thread =>
    simp only [Operation.effect]
    cases desk.threads.get? thread <;> exact ⟨rfl,rfl⟩
  | act context action => cases action with
    | assign => cases context <;> exact ⟨rfl,rfl⟩
    | _ => exact ⟨rfl,rfl⟩
  | _ => exact ⟨rfl,rfl⟩

theorem contexts_effect (operation : Operation V) {context : Nat} {vars : Dict String V}
    (found : desk.contexts[context]? = some ⟨user,file,vars⟩) :
    ∃ more, (operation.effect desk).contexts[context]? = some ⟨user,file,more⟩ := by
  have bound := (List.getElem?_eq_some_iff.mp found).1
  cases operation with
  | point error => cases error <;> exact ⟨vars,found⟩
  | reset error => cases error <;> exact ⟨vars,found⟩
  | openBuffers thread =>
    simp only [Operation.effect]
    cases desk.threads.get? thread <;> exact ⟨vars,found⟩
  | createContext session name =>
    simp only [Operation.effect]
    cases desk.objects[session]? with
    | none => exact ⟨vars,found⟩
    | some => exact ⟨vars,(List.getElem?_append_left bound).trans found⟩
  | act place action => cases action with
    | assign name value => cases place with
      | none => exact ⟨vars,found⟩
      | some place =>
        simp only [Operation.effect,Action.effect,List.getElem?_modify,found]
        by_cases same : place = context
        · exact ⟨vars.set name value,by simp [same]⟩
        · exact ⟨vars,by simp [same]⟩
    | _ => exact ⟨vars,found⟩
  | _ => exact ⟨vars,found⟩

theorem grows_effect (operation : Operation V) (desk : Desk V) : Grows desk (operation.effect desk) := by
  refine ⟨fun session user files found => ?_,fun _ _ _ _ found => contexts_effect operation found⟩
  by_cases apart : operation.Apart
  · exact ⟨files,(apart_effect apart desk).2 ▸ found⟩
  have bound := (List.getElem?_eq_some_iff.mp found).1
  cases operation with
  | createSession other => exact ⟨files,(List.getElem?_append_left bound).trans found⟩
  | createContext other name =>
    simp only [Operation.effect]
    cases held : desk.objects[other]? with
    | none => exact ⟨files,found⟩
    | some object =>
      by_cases same : other = session
      · subst same
        cases Option.some.inj (held.symm.trans found)
        exact ⟨_,List.getElem?_set_self bound⟩
      · exact ⟨files,(List.getElem?_set_ne same).trans found⟩
  | _ => exact absurd trivial apart

theorem owned_createSession (owned : Owned desk) : Owned ((Operation.createSession user).effect desk) := by
  refine ⟨fun other session found => ?_,fun session object file context there found => ?_⟩
  · change (desk.sessions.set user desk.objects.length).get? other = some session at found
    change ∃ files, (desk.objects ++ [⟨user,.empty⟩])[session]? = some ⟨other,files⟩
    rw [Dict.get?_set] at found
    by_cases same : other = user
    · rw [if_pos same] at found
      cases found
      exact ⟨.empty,by simp [same]⟩
    · rw [if_neg same] at found
      obtain ⟨files,there⟩ := owned.sessions other session found
      exact ⟨files,(List.getElem?_append_left (List.getElem?_eq_some_iff.mp there).1).trans there⟩
  · change (desk.objects ++ [⟨user,.empty⟩])[session]? = some object at there
    by_cases bound : session < desk.objects.length
    · exact owned.files session object file context ((List.getElem?_append_left bound).symm.trans there) found
    · rw [List.getElem?_append_right (Nat.le_of_not_lt bound)] at there
      obtain ⟨_,same⟩ := List.getElem?_eq_some_iff.mp there
      simp only [List.getElem_singleton] at same
      subst same
      cases found

theorem owned_createContext (session : Nat) (owned : Owned desk) :
    Owned ((Operation.createContext session file).effect desk) := by
  cases held : desk.objects[session]? with
  | none =>
    simp only [Operation.effect,held]
    exact owned
  | some object =>
    have grows := grows_effect (.createContext session file) desk
    simp only [Operation.effect,held] at grows ⊢
    refine ⟨fun user other found => ?_,fun other changed name context there found => ?_⟩
    · obtain ⟨files,there⟩ := owned.sessions user other found
      exact grows.objects other user files there
    · change (desk.objects.set session {object with
        files := object.files.set file desk.contexts.length})[other]? = some changed at there
      have kept (object : UserSession) (there : desk.objects[other]? = some object)
          (found : object.files.get? name = some context) :=
        (owned.files other object name context there found).elim fun vars => grows.contexts context object.user name vars
      by_cases same : session = other
      · subst same
        rw [List.getElem?_set_self (List.getElem?_eq_some_iff.mp held).1] at there
        cases there
        rw [Dict.get?_set] at found
        by_cases new : name = file
        · rw [if_pos new] at found
          cases found
          exact ⟨.empty,by simp [new]⟩
        · rw [if_neg new] at found
          exact kept object held found
      · exact kept changed ((List.getElem?_set_ne same).symm.trans there) found

theorem owned_effect (operation : Operation V) (owned : Owned desk) : Owned (operation.effect desk) := by
  by_cases apart : operation.Apart
  · obtain ⟨sessions,objects⟩ := apart_effect apart desk
    refine ⟨fun user session found => ?_,fun session object file context there found => ?_⟩
    · rw [objects]
      exact owned.sessions user session (sessions ▸ found)
    · obtain ⟨vars,there⟩ := owned.files session object file context (objects ▸ there) found
      exact contexts_effect operation there
  · cases operation with
    | createSession => exact owned_createSession owned
    | createContext session => exact owned_createContext session owned
    | _ => exact absurd trivial apart

/-- The sessions and variables of a process, whoever acts on them. -/
def regime : Regime (Desk V) (Operation V) Outside where
  effect := Operation.effect
  grows := Grows
  valid := Owned
  fair _ := True
  same := Grows.refl
  further _ _ _ := Grows.trans

/-- The code of a request assigns to the variables of its user and its file. -/
def keepsTo (user : UserId) (file : String) (desk : Desk V) : Operation V → Prop
  | .act (some context) _ => ∃ vars, desk.contexts[context]? = some ⟨user,file,vars⟩
  | _ => True

section secured
variable {α : Type} {post : Desk V → Except Fault α → Prop}

theorem secures_step {operation : Operation V} {next : Desk V → Outside → Serving V α}
    (allowed : ∀ later, Grows desk later → Owned later → keepsTo user file later operation ∧
      ∀ outside, (next later outside).Secures regime (keepsTo user file) (operation.effect later) post) :
    (Program.step operation next).Secures regime (keepsTo user file) desk post := fun later grows owned =>
  ⟨(allowed later grows owned).1,grows_effect operation later,owned_effect operation owned,
    fun outside _ => (allowed later grows owned).2 outside⟩

theorem filed_secures {program : Serving V α} {post : Except Fault α → Prop}
    (filed : program.Ensures (fun _ => True) Operation.Filed post) :
    program.Secures regime (keepsTo user file) desk (fun _ => post) := by
  induction program generalizing desk with
  | pure | raise => exact fun _ _ _ => filed
  | step operation next ih =>
    refine secures_step (fun later _ _ => ⟨?_,fun outside => ih later outside (filed.2 later outside trivial)⟩)
    cases operation with
    | act context => cases context with
      | none => trivial
      | some => exact filed.1.elim
    | _ => trivial

theorem ensureSession_secures :
    (ensureSession user : Serving V Unit).Secures regime (keepsTo user file) desk (fun _ _ => True) := by
  refine secures_step (fun desk _ _ => ⟨trivial,fun _ => ?_⟩)
  simp only [Program.bind]
  cases desk.sessions.get? user with
  | some => exact fun _ _ _ => trivial
  | none => exact secures_step (fun _ _ _ => ⟨trivial,fun _ _ _ _ => trivial⟩)

/-- A session in the dictionary is of its user. -/
theorem sessionOf_secures : (sessionOf user : Serving V Nat).Secures regime (keepsTo user file) desk
    (fun later result => ∀ session, result = .ok session → ∃ files, later.objects[session]? = some ⟨user,files⟩) := by
  refine secures_step (fun desk _ owned => ⟨trivial,fun _ => ?_⟩)
  simp only [Program.bind]
  cases held : desk.sessions.get? user with
  | none =>
    rintro _ _ _ _ ⟨⟩
  | some session =>
    rintro later grows _ _ ⟨⟩
    obtain ⟨files,there⟩ := owned.sessions user session held
    exact grows.objects session user files there

theorem getFileContext_secures {session : Nat} (owned : Owned desk)
    (held : ∃ files, desk.objects[session]? = some ⟨user,files⟩) :
    (getFileContext session file : Serving V Nat).Secures regime (keepsTo user file) desk
      (fun later result => ∀ context, result = .ok context → ∃ vars, later.contexts[context]? = some ⟨user,file,vars⟩) := by
  have stays {desk later : Desk V} (grows : Grows desk later)
      (held : ∃ files, desk.objects[session]? = some ⟨user,files⟩) :
      ∃ files, later.objects[session]? = some ⟨user,files⟩ :=
    held.elim fun files => grows.objects session user files
  have ensured : (ensureContext session file : Serving V Unit).Secures regime (keepsTo user file) desk
      (fun later _ => ∃ files, later.objects[session]? = some ⟨user,files⟩) := by
    refine secures_step (fun desk grows _ => ⟨trivial,fun _ => ?_⟩)
    have held := stays grows held
    simp only [Program.bind]
    cases desk.context? session file with
    | some => exact fun _ grows _ => stays grows held
    | none =>
      refine secures_step (fun later grows _ => ⟨trivial,fun _ => ?_⟩)
      exact fun _ more _ => stays more (stays (grows_effect _ later) (stays grows held))
  refine ensured.bind owned (fun desk _ _ held => ?_) (by rintro _ _ _ _ _ ⟨⟩)
  refine secures_step (fun desk grows owned => ⟨trivial,fun _ => ?_⟩)
  obtain ⟨files,there⟩ := stays grows held
  simp only [Program.bind,Desk.context?,there,Option.bind_some]
  cases found : files.get? file with
  | none =>
    rintro _ _ _ _ ⟨⟩
  | some context =>
    rintro later grows _ _ ⟨⟩
    obtain ⟨vars,kept⟩ := owned.files session ⟨user,files⟩ file context there found
    exact grows.contexts context user file vars kept

theorem execIn_secures {context : Nat} (code : Code V) (held : ∃ vars, desk.contexts[context]? = some ⟨user,file,vars⟩) :
    (execIn context code).Secures regime (keepsTo user file) desk (fun _ _ => True) := by
  induction code generalizing desk with
  | pure | raise => exact fun _ _ _ => trivial
  | step action next ih =>
    refine secures_step (fun later grows _ => ?_)
    have there := held.elim fun vars => grows.contexts context user file vars
    exact ⟨there,fun _ => ih _ _ (there.elim fun _ found => contexts_effect _ found)⟩

theorem executeCode_secures (owned : Owned desk) :
    (executeCode settings user file code).Secures regime (keepsTo user file) desk (fun _ _ => True) := by
  refine sessionOf_secures.bind owned (fun desk session owned held => ?_) (fun _ _ _ _ => trivial)
  refine (getFileContext_secures owned (held session rfl)).bind owned (fun desk context owned held => ?_)
    (fun _ _ _ _ => trivial)
  have held := held context rfl
  refine secures_step (fun old grows _ => ⟨trivial,fun _ => ?_⟩)
  have held := held.elim fun vars => grows.contexts context user file vars
  refine secures_step (fun later grows owned => ⟨trivial,fun _ => ?_⟩)
  have held := held.elim fun vars found => (grows.contexts context user file vars found).elim fun _ there =>
    contexts_effect .redirect there
  have finish {desk : Desk V} : (giveBack old.stdout later.outputs.length : Serving V String).Secures regime (keepsTo user file)
      desk (fun _ _ => True) :=
    secures_step (fun _ _ _ => ⟨trivial,fun _ => secures_step (fun _ _ _ => ⟨trivial,fun _ _ _ _ => trivial⟩)⟩)
  refine (execIn_secures (settings.code code) held).handle (owned_effect .redirect owned) (fun _ result _ _ _ => ?_)
  cases result with
  | ok => exact finish
  | error fault => cases fault with
    | exception => exact secures_step (fun _ _ _ => ⟨trivial,fun _ => finish⟩)
    | exit => exact fun _ _ _ => trivial

theorem response_secures (origin : Origin V) (owned : Owned desk) : (origin.response settings).Secures regime
    (keepsTo origin.request.user origin.request.filePath) desk (fun _ _ => True) := by
  obtain ⟨thread,request⟩ := origin
  cases request with
  | code => exact (executeCode_secures owned).bind owned (fun _ _ _ _ _ _ _ => trivial) (fun _ _ _ _ => trivial)
  | file user file data => exact (filed_secures (executeFile_filed thread data)).mono (fun _ _ _ _ => trivial)

theorem program_secures (origin : Origin V) (owned : Owned desk) : (origin.program settings).Secures regime
    (keepsTo origin.request.user origin.request.filePath) desk (fun _ _ => True) := by
  refine ensureSession_secures.bind owned (fun desk _ owned _ => ?_) (fun _ _ _ _ => trivial)
  refine (response_secures origin owned).handle owned (fun _ result _ _ _ => ?_)
  cases result with
  | ok => exact secures_step (fun _ _ _ => ⟨trivial,fun _ _ _ _ => trivial⟩)
  | error fault => cases fault with
    | exception => exact secures_step (fun _ _ _ => ⟨trivial,fun _ _ _ _ => trivial⟩)
    | exit => exact fun _ _ _ => trivial

end secured

/-- The session of a user, and in it the variables of a file. -/
def Desk.place (desk : Desk V) (user : UserId) (file : String) : Option Nat × Option Nat :=
  match desk.sessions.get? user with
  | none => (none,none)
  | some session => (some session,desk.context? session file)

theorem place_some {session : Nat} {context : Option Nat} (found : desk.place user file = (some session,context)) :
    desk.sessions.get? user = some session ∧ desk.context? session file = context := by
  unfold Desk.place at found
  cases held : desk.sessions.get? user with
  | none => simp [held] at found
  | some other =>
    simp only [held,Prod.mk.injEq,Option.some.injEq] at found
    obtain ⟨rfl,same⟩ := found
    exact ⟨rfl,same⟩

theorem place_none {context : Option Nat} (found : desk.place user file = (none,context)) : desk.sessions.get? user = none := by
  unfold Desk.place at found
  cases held : desk.sessions.get? user with
  | none => rfl
  | some => simp [held] at found

theorem place_apart (operation : Operation V) (apart : operation.Apart) :
    (operation.effect desk).place user file = desk.place user file := by
  obtain ⟨sessions,objects⟩ := apart_effect apart desk
  simp only [Desk.place,Desk.context?,sessions,objects]

theorem place_createSession (owned : Owned desk) (other : UserId) :
    ((Operation.createSession other).effect desk).place user file =
    if user = other then (some desk.objects.length,none) else desk.place user file := by
  simp only [Desk.place,Operation.effect,Dict.get?_set]
  by_cases same : user = other
  · simp [same,Desk.context?]
  · simp only [if_neg same]
    cases held : desk.sessions.get? user with
    | none => rfl
    | some session =>
      obtain ⟨files,there⟩ := owned.sessions user session held
      have bound := (List.getElem?_eq_some_iff.mp there).1
      simp only [Desk.context?,List.getElem?_append_left bound]

theorem place_createContext {session : Nat} {object : UserSession} (held : desk.objects[session]? = some object) (name : String) :
    ((Operation.createContext session name).effect desk).place user file =
      if desk.sessions.get? user = some session ∧ file = name then (some session,some desk.contexts.length)
      else desk.place user file := by
  have bound := (List.getElem?_eq_some_iff.mp held).1
  simp only [Desk.place,Operation.effect,held]
  cases found : desk.sessions.get? user with
  | none => simp
  | some other =>
    by_cases same : other = session
    · subst same
      simp only [Desk.context?,List.getElem?_set_self bound,held,Option.bind_some,Dict.get?_set,true_and]
      by_cases named : file = name
      · simp [named]
      · simp [named]
    · have apart : session ≠ other := Ne.symm same
      simp [Desk.context?,List.getElem?_set_ne apart,same]

/-- What a request knows of its place, when no other request of its user acts. -/
def placed (user : UserId) (file : String) : Watch (Desk V) (Operation V) (Option (Option Nat × Option Nat)) where
  sees known desk := ∀ place, known = some place → desk.place user file = place
  allows known operation := match operation with
    | .createSession other => other = user ∧ known = some (none,none)
    | .createContext session name => name = file ∧ known = some (some session,none)
    | .act (some context) _ => ∃ session, known = some (some session,some context)
    | _ => True
  after _ operation desk := some ((operation.effect desk).place user file)

section places
variable {known : Option (Option Nat × Option Nat)} {operation : Operation V}

/-- A request of another user leaves a place alone. -/
theorem others_place {other : UserId} {name : String} (owned : Owned desk) (differ : user ≠ other)
    (allows : (placed other name).allows known operation) (sees : (placed other name).sees known desk) :
    (operation.effect desk).place user file = desk.place user file := by
  by_cases apart : operation.Apart
  · exact place_apart operation apart
  · cases operation with
    | createSession =>
      obtain ⟨rfl,_⟩ := allows
      rw [place_createSession owned,if_neg differ]
    | createContext session =>
      obtain ⟨rfl,same⟩ := allows
      obtain ⟨files,there⟩ := owned.sessions other session (place_some (sees _ same)).1
      rw [place_createContext there]
      refine if_neg (fun both => differ ?_)
      -- the session of both would be of both
      obtain ⟨_,own⟩ := owned.sessions user session both.1
      exact (UserSession.mk.inj (Option.some.inj (own.symm.trans there))).1
    | _ => exact absurd trivial apart

/-- A place that has variables keeps them. -/
theorem kept_place {other : UserId} {name : String} {session context : Nat} (owned : Owned desk)
    (allows : (placed other name).allows known operation) (sees : (placed other name).sees known desk)
    (holds : desk.place user file = (some session,some context)) :
    (operation.effect desk).place user file = (some session,some context) := by
  by_cases apart : operation.Apart
  · rw [place_apart operation apart,holds]
  by_cases own : user = other
  · subst own
    cases operation with
    | createSession =>
      obtain ⟨rfl,same⟩ := allows
      have absent := place_none (sees _ same)
      rw [(place_some holds).1] at absent
      cases absent
    | createContext there =>
      obtain ⟨rfl,same⟩ := allows
      obtain ⟨found,blank⟩ := place_some (sees _ same)
      obtain ⟨files,object⟩ := owned.sessions user there found
      rw [place_createContext object]
      refine (if_neg (fun both => ?_)).trans holds
      obtain ⟨_,rfl⟩ := both
      obtain ⟨same,full⟩ := place_some holds
      cases Option.some.inj (found.symm.trans same)
      rw [blank] at full
      cases full
    | _ => exact absurd trivial apart
  · rw [others_place owned own allows sees,holds]

theorem ensureSession_placed : (ensureSession user : Serving V Unit).Watched (placed user file) known (fun _ _ => True) := by
  refine ⟨trivial,fun desk _ _ => ?_⟩
  simp only [Program.bind]
  cases held : desk.sessions.get? user with
  | some => trivial
  | none =>
    refine ⟨⟨rfl,?_⟩,fun _ _ _ => trivial⟩
    simp only [placed,Operation.effect,Desk.place,held]

theorem sessionOf_placed : (sessionOf user : Serving V Nat).Watched (placed user file) known
    (fun known result => ∀ session, result = .ok session → ∃ context, known = some (some session,context)) := by
  refine ⟨trivial,fun desk _ _ => ?_⟩
  simp only [Program.bind]
  cases held : desk.sessions.get? user with
  | none =>
    rintro _ ⟨⟩
  | some session =>
    rintro _ ⟨⟩
    exact ⟨desk.context? session file,by simp only [placed,Operation.effect,Desk.place,held]⟩

theorem getFileContext_placed {session : Nat} {context : Option Nat} :
    (getFileContext session file : Serving V Nat).Watched (placed user file) (some (some session,context))
      (fun known result => ∀ context, result = .ok context → known = some (some session,some context)) := by
  have looked {desk : Desk V} {context : Option Nat} (sees : (placed user file).sees (some (some session,context)) desk) :
      (placed user file).after (some (some session,context)) .look desk = some (some session,context) ∧
        desk.context? session file = context := ⟨congrArg some (sees _ rfl),(place_some (sees _ rfl)).2⟩
  have ensured : (ensureContext session file : Serving V Unit).Watched (placed user file) (some (some session,context))
      (fun known _ => ∃ context, known = some (some session,context)) := by
    refine ⟨trivial,fun desk _ sees => ?_⟩
    obtain ⟨known,same⟩ := looked sees
    rw [known]
    simp only [Program.bind,same]
    cases context with
    | some context => exact ⟨context,rfl⟩
    | none =>
      refine ⟨⟨rfl,rfl⟩,fun later _ sees => ?_⟩
      have found := (place_some (sees _ rfl)).1
      cases held : later.objects[session]? with
      | some object =>
        refine ⟨some later.contexts.length,congrArg some ((place_createContext held file).trans ?_)⟩
        rw [if_pos ⟨found,rfl⟩]
      | none =>
        refine ⟨none,congrArg some (Eq.trans ?_ (sees _ rfl))⟩
        simp only [Operation.effect,held]
  refine ensured.bind (fun known _ held => ?_) (by rintro _ _ _ _ ⟨⟩)
  obtain ⟨context,rfl⟩ := held
  refine ⟨trivial,fun desk _ sees => ?_⟩
  obtain ⟨known,same⟩ := looked sees
  rw [known]
  simp only [Program.bind,same]
  cases context with
  | none => rintro _ ⟨⟩
  | some context =>
    rintro _ ⟨⟩
    rfl

theorem execIn_placed {session context : Nat} (code : Code V) :
    (execIn context code).Watched (placed user file) (some (some session,some context))
      (fun _ _ => True) := by
  induction code with
  | pure | raise => trivial
  | step action next ih =>
    refine ⟨⟨session,rfl⟩,fun desk outside sees => ?_⟩
    rw [show (placed user file).after _ (.act (some context) action) desk = some (some session,some context) from
      congrArg some ((place_apart (.act (some context) action) trivial).trans (sees _ rfl))]
    exact ih _ _

theorem executeCode_placed :
    (executeCode settings user file code).Watched (placed user file) known (fun _ _ => True) := by
  refine sessionOf_placed.bind (fun known session held => ?_) (fun _ _ _ => trivial)
  obtain ⟨context,rfl⟩ := held session rfl
  refine getFileContext_placed.bind (fun known context held => ?_) (fun _ _ _ => trivial)
  cases held context rfl
  refine ⟨trivial,fun old _ sees => ?_⟩
  rw [show (placed user file).after _ .look old = some (some session,some context) from congrArg some (sees _ rfl)]
  refine ⟨trivial,fun desk _ sees => ?_⟩
  rw [show (placed user file).after _ .redirect desk = some (some session,some context) from congrArg some (sees _ rfl)]
  refine (execIn_placed (settings.code code)).handle (fun known result _ => ?_)
  cases result with
  | ok => exact ⟨trivial,fun _ _ _ => ⟨trivial,fun _ _ _ => trivial⟩⟩
  | error fault => cases fault with
    | exception => exact ⟨trivial,fun _ _ _ => ⟨trivial,fun _ _ _ => ⟨trivial,fun _ _ _ => trivial⟩⟩⟩
    | exit => trivial

theorem response_placed (origin : Origin V) : (origin.response settings).Watched
    (placed origin.request.user origin.request.filePath) known (fun _ _ => True) := by
  obtain ⟨thread,request⟩ := origin
  cases request with
  | code => exact executeCode_placed.bind (fun _ _ _ => trivial) (fun _ _ _ => trivial)
  | file user file data =>
    refine (Program.Watched.always (executeFile_filed thread data) (fun _ operation filed => ?_)).mono
      (fun _ _ _ => trivial)
    cases operation with
    | createSession | createContext => cases filed
    | act context => cases context with
      | none => trivial
      | some => cases filed
    | _ => trivial

theorem program_placed (origin : Origin V) : (origin.program settings).Watched
    (placed origin.request.user origin.request.filePath) none (fun _ _ => True) := by
  refine ensureSession_placed.bind (fun known _ _ => ?_) (fun _ _ _ => trivial)
  exact respond_watched ((response_placed origin).mono (fun _ _ _ _ _ => trivial)) (fun _ _ => trivial)

end places

section runs
variable {allowed : Allowed V} {first last : Process V} {events : List (Origin V × Operation V)}

/-- A request of a user comes when no other one of his is being answered. -/
def Orderly : Allowed V
  | view,.move origin => ∀ thread ∈ view.threads, thread.1.request.user ≠ origin.request.user
  | _,_ => True

instance (view : View (Desk V) (Origin V) (Operation V)) (label : Label Outside (Origin V)) : Decidable (Orderly view label) :=
  match label with
  | .move origin => inferInstanceAs (Decidable (∀ thread ∈ view.threads, thread.1.request.user ≠ origin.request.user))
  | .advance _ _ => .isTrue trivial
  | .close _ => .isTrue trivial

/-- Whoever has acted on variables has found them in their place, where they still are. -/
def Settled (events : List (Origin V × Operation V)) (desk : Desk V) : Prop :=
  ∀ origin context action, (origin,.act (some context) action) ∈ events →
    ∃ session, desk.place origin.request.user origin.request.filePath = (some session,some context)

/-- A request that knows its place. -/
def Knows (desk : Desk V) (origin : Origin V) (program : Serving V Unit) : Prop :=
  ∃ known, (placed origin.request.user origin.request.filePath).sees known desk ∧
    program.Watched (placed origin.request.user origin.request.filePath) known (fun _ _ => True)

theorem knows_own {origin : Origin V} {program : Serving V Unit} {operation : Operation V} (outside : Outside)
    (owned : Owned desk) (settled : Settled events desk) (knows : Knows desk origin program)
    (busy : (Program.language (Desk V) (Operation V) Outside Fault).operation program = some operation) :
    Settled (events ++ [(origin,operation)]) (operation.effect desk) ∧ Knows (operation.effect desk) origin
      ((Program.language (Desk V) (Operation V) Outside Fault).next program desk outside) := by
  obtain ⟨known,sees,watched⟩ := knows
  obtain ⟨allows,continues⟩ := Program.Watched.advance program watched busy
  refine ⟨fun source context action member => ?_,_,fun _ same => Option.some.inj same,continues desk outside sees⟩
  rcases List.mem_append.mp member with earlier | now
  · obtain ⟨session,there⟩ := settled source context action earlier
    exact ⟨session,kept_place owned allows sees there⟩
  · cases List.mem_singleton.mp now
    obtain ⟨session,same⟩ := allows
    exact ⟨session,(place_apart (.act (some context) action) trivial).trans (sees _ same)⟩

theorem knows_others {origin source : Origin V} {program other : Serving V Unit} {operation : Operation V}
    (owned : Owned desk) (acts : Knows desk source other)
    (busy : (Program.language (Desk V) (Operation V) Outside Fault).operation other = some operation)
    (knows : Knows desk origin program) (apart : source.request.user ≠ origin.request.user) :
    Knows (operation.effect desk) origin program := by
  obtain ⟨known,sees,watched⟩ := acts
  obtain ⟨own,held,rest⟩ := knows
  refine ⟨own,fun place same => ?_,rest⟩
  rw [others_place owned (Ne.symm apart) (Program.Watched.advance other watched busy).1 sees]
  exact held place same

theorem orderly_settled (run : Execution settings Orderly first events last) (idle : first.threads = [])
    (owned : Owned first.shared) : Settled events last.shared := by
  have both := run.keyed (fun origin => origin.request.user) (fun events desk => Owned desk ∧ Settled events desk)
    (fun _ => Knows) ?_ ?_ ?_ idle ⟨owned,fun _ _ _ member => absurd member List.not_mem_nil⟩
  · exact both.1.2
  · intro events desk origin program operation outside inv knows busy
    obtain ⟨settled,knows⟩ := knows_own outside inv.1 inv.2 knows busy
    exact ⟨⟨owned_effect operation inv.1,settled⟩,knows⟩
  · intro events desk origin program operation source other inv acts busy knows apart
    exact knows_others inv.1 acts busy knows apart
  · intro events view environment after turn inv orderly reacts
    obtain ⟨rfl,rfl,_⟩ := react_cases reacts
    refine ⟨inv,fun _ _ knows => knows,?_⟩
    rintro _ ⟨⟩
    refine ⟨fun member => ?_,none,nofun,program_placed environment⟩
    obtain ⟨other,inside,same⟩ := List.mem_map.mp member
    obtain ⟨thread,running,rfl⟩ := List.mem_map.mp inside
    exact orderly thread running same

theorem notebook_owner (run : Execution settings allowed first events last) (idle : first.threads = [])
    (owned : Owned first.shared) {origin : Origin V} {context : Nat} {action : Action V}
    (member : (origin,.act (some context) action) ∈ events) :
    ∃ vars, last.shared.contexts[context]? = some ⟨origin.request.user,origin.request.filePath,vars⟩ := by
  have secured := run.secured (R := regime) idle owned
    (fun _ _ _ origin _ owned => program_secures origin owned) (fun _ _ _ _ => trivial) ?_
  · obtain ⟨desk,_,grows,_,vars,there⟩ := secured.2.2 _ member
    exact grows.contexts context _ _ vars there
  · intro view environment after turn owned _ reacts
    obtain ⟨rfl,_,_⟩ := react_cases reacts
    exact ⟨Grows.refl _,owned⟩

/-- The variables of a notebook are those of one user id and one file, whoever else is served.
Where the requests of a user id come one after another, they are the only ones. -/
theorem notebooks (run : Execution settings allowed first events last) (idle : first.threads = [])
    (owned : Owned first.shared) {one two : Origin V} {place other : Nat} {act more : Action V}
    (here : (one,.act (some place) act) ∈ events) (there : (two,.act (some other) more) ∈ events) :
    (place = other → one.request.user = two.request.user ∧ one.request.filePath = two.request.filePath) ∧
    ((∀ view label, allowed view label → Orderly view label) → one.request.user = two.request.user →
      one.request.filePath = two.request.filePath → place = other) := by
  refine ⟨fun same => ?_,fun orderly user file => ?_⟩
  · subst same
    obtain ⟨_,first⟩ := notebook_owner run idle owned here
    obtain ⟨_,second⟩ := notebook_owner run idle owned there
    obtain ⟨user,file,_⟩ := Context.mk.inj (Option.some.inj (first.symm.trans second))
    exact ⟨user,file⟩
  · have settled := orderly_settled (run.mono orderly) idle owned
    obtain ⟨_,first⟩ := settled one place act here
    obtain ⟨_,second⟩ := settled two other more there
    rw [user,file,second] at first
    exact (Option.some.inj (Prod.mk.inj first).2).symm

/-- The second request of a user id counts on from what the first one has counted. -/
theorem notebooks_twice : ∃ (events : List (Origin Nat × Operation Nat)) (last : Process Nat) (place other : Nat),
    Execution sample Orderly ⟨blank,[]⟩ events last ∧
    (⟨1,.code 7 "a.py" "x"⟩,.act (some place) (.assign "runs" 1)) ∈ events ∧
    (⟨2,.code 7 "a.py" "y"⟩,.act (some other) (.assign "runs" 2)) ∈ events ∧ place = other := by
  let one : Origin Nat := ⟨1,.code 7 "a.py" "x"⟩
  let two : Origin Nat := ⟨2,.code 7 "a.py" "y"⟩
  have computed : (((⟨blank,[]⟩ : Process Nat).record ⟨Operation.effect,react⟩ (Origin.program sample) Orderly
      [.take (.move one),.finish 0 ⟨.ok "",""⟩,.take (.move two),.finish 0 ⟨.ok "",""⟩]).any (fun reached =>
        decide ((one,.act (some 0) (.assign "runs" 1)) ∈ reached.1) &&
          decide ((two,.act (some 0) (.assign "runs" 2)) ∈ reached.1))) = true := by decide
  obtain ⟨events,last,run,found⟩ := record_any _ computed
  obtain ⟨here,there⟩ := Bool.and_eq_true_iff.mp found
  have owned : Owned blank := ⟨nofun,nofun⟩
  have same := (notebooks run rfl owned (of_decide_eq_true here) (of_decide_eq_true there)).2
    (fun _ _ orderly => orderly) rfl rfl
  exact ⟨events,last,0,0,run,of_decide_eq_true here,of_decide_eq_true there,same⟩

end runs
end notebooks
end FinmarsWorkflow.Notebook
