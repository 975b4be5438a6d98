import Mathlib.Data.List.Infix
import FinmarsWorkflow.Interleave.Growth

/-! Who a request is made by.
Two authenticators read the token of a request, one after the other. The second one asks
Keycloak which name the token stands for, and creates the user of a name that it has not
seen. Any number of requests may be the first of a name at the same time, next to the
command and the start-up that create users of their own. -/
namespace FinmarsWorkflow.Authentication
open Interleave

/-- A user; the password is the one that is hashed, if any. -/
structure User where
  username : String
  password : Option String
  isStaff : Bool
  isSuperuser : Bool
  isBot : Bool
deriving DecidableEq

/-- The users by their keys. -/
abbrev Users := List User
abbrev UserId := Nat

/-- The environment of the processes, with NFKC of the standard library. -/
structure Settings where
  environUsername : Option String
  environPassword : Option String
  normalize : String → String

/-- `ADMIN_USERNAME`, by `ENV_STR`. -/
def Settings.adminUsername (settings : Settings) : String := (settings.environUsername.filter (· != "")).getD "admin"

/-- `ADMIN_PASSWORD` -/
def Settings.adminPassword (settings : Settings) : String := (settings.environPassword.filter (· != "")).getD "password"

inductive Operation where
  | read
  | insert (user : User)
  /-- how a request is authenticated: as a user, as nobody, or not -/
  | answer (outcome : Except String (Option UserId))

/-- A column of at most 150 characters, none of them NUL. -/
def fits (username : String) : Bool := decide (username.length ≤ 150) && !username.toList.contains '\x00'

/-- Names are unique. -/
def Users.taken (users : Users) (username : String) : Bool := users.any (fun user => user.username == username)

/-- What the database accepts. -/
def Users.accepts (users : Users) (user : User) : Bool := !users.taken user.username && fits user.username

def Operation.effect : Operation → Users → Users
  | .insert user,users => if users.accepts user then users ++ [user] else users
  | .read,users | .answer _,users => users

/-- What a step finds outside: whether the database takes its statement, and the string of
`generate_random_string`. -/
structure Outside where
  works : Bool
  random : String

abbrev Authenticating (α : Type) := Program Users Operation Outside String α

section models

/-- A statement that the database may refuse, whatever it is. -/
def statement {α : Type} (rest : Users → Outside → Authenticating α) : Authenticating α :=
  .step .read (fun users outside => if outside.works then rest users outside else .raise "OperationalError")

def doesNotExist : String := "User matching query does not exist."

/-- `User.objects.get(username=username)` -/
def getUser (username : String) : Authenticating UserId :=
  statement fun users _ => match users.findIdx? (fun user => user.username == username) with
    | some id => .pure id
    | none => .raise doesNotExist

/-- `user.save()` -/
def saveUser (user : User) : Authenticating UserId :=
  statement fun _ _ => .step (.insert user) (fun users _ =>
    if users.accepts user then .pure users.length else .raise "IntegrityError")

variable (settings : Settings)

/-- `UserManager._create_user` -/
def createUser (username : String) (password : Option String) (isStaff isSuperuser : Bool) : Authenticating UserId :=
  if username = "" then .raise "The given username must be set"
  else saveUser ⟨settings.normalize username,password,isStaff,isSuperuser,false⟩

/-- `create_finmars_bot` -/
def createFinmarsBot : Authenticating Unit := do
  match ← (getUser "finmars_bot").outcome with
  | .ok _ => return
  | .error _ =>
    let _ ← saveUser ⟨"finmars_bot",none,false,false,true⟩
    return

/-- `generate_super_user` -/
def generateSuperUser : Authenticating Unit :=
  match settings.environUsername.filter (· != ""),settings.environPassword.filter (· != "") with
  | some username,some password => do
    match ← (getUser username).outcome with
    | .ok _ => return
    | .error error =>
      if error = doesNotExist then
        let _ ← createUser settings username (some password) true true
        return
      else
        .raise error
  | _,_ => return

end models

section tokens

def isSpace (byte : UInt8) : Bool := byte == 32 || (9 ≤ byte && byte ≤ 13)

/-- `bytes.split()` -/
def words (bytes : List UInt8) : List (List UInt8) := (bytes.splitOnP isSpace).filter (fun word => !word.isEmpty)

/-- `bytes.lower()` -/
def lower (bytes : List UInt8) : List UInt8 := bytes.map (fun byte => if 65 ≤ byte && byte ≤ 90 then byte + 32 else byte)

def encode (value : String) : List UInt8 := value.toUTF8.data.toList

def decode (bytes : List UInt8) : Option String := String.fromUTF8? ⟨bytes.toArray⟩

theorem decode_encode (value : String) : decode (encode value) = some value := by
  have same : ByteArray.mk (encode value).toArray = value.toUTF8 := rfl
  unfold decode String.fromUTF8?
  rw [same]
  exact dif_pos value.isValidUTF8

inductive JwtError where
  | expired
  | invalid
  | other (text : String)

/-- A request, with what the two authorities make of a token: Keycloak finds the `preferred_username`
in its answer, and the signature gives the `username` of the payload. -/
structure Request where
  options : Bool
  authorization : List UInt8
  cookies : List (String × String)
  userinfo : String → Except String (Option String)
  payload : String → Except JwtError (Option String)

/-- The token after its keyword. -/
def tokenOf (keyword : String) : List (List UInt8) → Except String (Option String)
  | [] => .ok none
  | first::rest =>
    if lower first ≠ lower (encode keyword) then .ok none
    else match rest with
      | [] => .error "Invalid token header. No credentials provided."
      | [token] => match decode token with
        | some token => .ok (some token)
        | none => .error "Invalid token header. Token string should not contain invalid characters."
      | _ => .error "Invalid token header. Token string should not contain spaces."

/-- `JWTAuthentication.get_auth_token_from_request` -/
def jwtToken (request : Request) : Except String (Option String) := tokenOf "Bearer" (words request.authorization)

/-- The loop over the cookies. -/
def cookieWords : List (String × String) → List (List UInt8)
  | [] => []
  | (key,value)::rest => match cookieWords rest with
    | [] => if key = "access_token" then [encode "Token",encode value] else []
    | later => later

/-- `KeycloakAuthentication.get_auth_token_from_request` -/
def keycloakToken (request : Request) : Except String (Option String) :=
  let auth := words request.authorization
  tokenOf "Token" (if auth = [] then cookieWords request.cookies else auth)

end tokens

section authenticators
variable (settings : Settings)

/-- The lookup of a name, which may be missing. -/
def lookup : Option String → Authenticating UserId
  | some name => getUser name
  | none => .raise "KeyError"

/-- `KeycloakAuthentication.authenticate_credentials` -/
def keycloakCredentials (userinfo : Except String (Option String)) : Authenticating UserId :=
  match userinfo with
  | .error _ => .raise "Invalid or expired token."
  | .ok preferred => do
    match ← (lookup preferred).outcome with
    | .ok id => return id
    | .error _ =>
      let created : Authenticating UserId := match preferred with
        | none => .raise "KeyError"
        | some username =>
          let isAdmin := username == settings.adminUsername
          .step .read (fun _ outside =>
            createUser settings username (some (if isAdmin then settings.adminPassword else outside.random)) isAdmin isAdmin)
      match ← created.outcome with
      | .ok id => return id
      | .error _ => lookup preferred

/-- `JWTAuthentication.authenticate_credentials` -/
def jwtCredentials : Except JwtError (Option String) → Authenticating UserId
  | .error .expired => .raise "Token has expired"
  | .error .invalid => .raise "Invalid token"
  | .error (.other text) => .raise text
  | .ok username => lookup username

/-- `authenticate` of both classes. -/
def authenticate (request : Request) (token : Except String (Option String)) (credentials : String → Authenticating UserId) :
    Authenticating (Option UserId) :=
  if request.options then do
    let bot ← getUser "finmars_bot"
    return some bot
  else do
    match ← .lift token with
    | none => return none
    | some token =>
      let user ← credentials token
      return some user

/-- The authenticators in their order. -/
def authenticateRequest (request : Request) : Authenticating (Option UserId) := do
  match ← authenticate request (jwtToken request) (fun token => jwtCredentials (request.payload token)) with
  | some user => return some user
  | none => authenticate request (keycloakToken request) (fun token => keycloakCredentials settings (request.userinfo token))

end authenticators

section machine

inductive Origin where
  | request (request : Request)
  /-- the start-up of a process -/
  | bootstrap
  | command

def Origin.program (settings : Settings) : Origin → Authenticating Unit
  | .request asked => (authenticateRequest settings asked).outcome.bind (fun outcome =>
      .step (.answer outcome) (fun _ _ => .pure ()))
  | .bootstrap => createFinmarsBot.attempt
  | .command => (generateSuperUser settings).attempt

/-- What has begun, with the users that there were by then. -/
structure Begun where
  origin : Origin
  users : Users

def Begun.program (settings : Settings) (begun : Begun) : Authenticating Unit := begun.origin.program settings

/-- Requests and processes come as they like, and may be cut off. -/
inductive Environment where
  | start (origin : Origin)
  | abort (index : Nat)

def react : Environment → Users → List Begun → Option (Users × Turn Begun)
  | .start origin,users,_ => some (users,.spawn ⟨origin,users⟩)
  | .abort index,users,_ => some (users,.drop index)

abbrev Installation := System Begun (Program.language Users Operation Outside String)
abbrev Allowed := Condition Users Begun Operation Outside Environment

abbrev Execution (settings : Settings) (allowed : Allowed) (users : Users) (events : List (Begun × Operation))
    (last : Installation) : Prop :=
  Run ⟨Operation.effect,react⟩ (L := Program.language Users Operation Outside String) (Begun.program settings) allowed
    ⟨users,[]⟩ events last

/-- The request is answered, which began among these users. -/
abbrev Answered (events : List (Begun × Operation)) (request : Request) (users : Users)
    (outcome : Except String (Option UserId)) : Prop := (⟨.request request,users⟩,.answer outcome) ∈ events

end machine

/-- The cookie with the token that counts. -/
theorem keycloakToken_cookie (request : Request) (value : String) (rest : List (String × String))
    (header : words request.authorization = []) (cookies : request.cookies = ("access_token",value)::rest)
    (only : cookieWords rest = []) : keycloakToken request = .ok (some value) := by
  simp only [keycloakToken,header,cookies,cookieWords,only,if_true,tokenOf,decode_encode]
  rfl

section names

/-- The name that a request proves: the bot for OPTIONS, else what the first authenticator that finds a token says. -/
def Request.name (request : Request) : Option String :=
  if request.options then some "finmars_bot"
  else match jwtToken request with
    | .error _ => none
    | .ok (some token) => (request.payload token).toOption.join
    | .ok none => match keycloakToken request with
      | .ok (some token) => (request.userinfo token).toOption.join
      | _ => none

/-- The name is one that Keycloak knows. -/
def Request.registers (request : Request) : Bool :=
  !request.options && (match jwtToken request with | .ok none => true | _ => false)

variable (settings : Settings) (first : Users) (healthy : Prop)

/-- What holds of the users at any time: names are unique and normal, and only the administrator has been made a superuser. -/
structure Sound (users : Users) : Prop where
  grown : first <+: users
  unique : (users.map User.username).Nodup
  normal : ∀ user ∈ users, settings.normalize user.username = user.username
  superusers : ∀ user ∈ users.drop first.length, user.isSuperuser = true ∨ user.isStaff = true →
    user.username = settings.normalize settings.adminUsername

/-- Users are only added. In good health the database takes every statement. -/
def regime : Regime Users Operation Outside where
  effect := Operation.effect
  grows users later := users <+: later
  valid := Sound settings first
  fair outside := healthy → outside.works = true
  same _ := List.prefix_rfl
  further _ _ _ := List.IsPrefix.trans

/-- A user whose name is what becomes of the name that the request proves. Where these differ, the user is none of
those that there were when the request began. -/
def Answers (request : Request) (since users : Users) : Except String (Option UserId) → Prop
  | .ok (some id) => ∃ name user, request.name = some name ∧ users[id]? = some user ∧
    user.username = settings.normalize name ∧
    (settings.normalize name = name ∨ request.registers = true ∧ since.taken (settings.normalize name) = false)
  | .ok none => request.name = none
  | .error _ => healthy → request.registers = true → ∀ name, request.name = some name → name ≠ "" → fits name = true →
    settings.normalize name ≠ name

def May (begun : Begun) (users : Users) : Operation → Prop
  | .answer outcome => ∀ request, begun.origin = .request request → Answers settings healthy request begun.users users outcome
  | .read | .insert _ => True

end names

section secures
variable {settings : Settings} {first users later : Users} {healthy : Prop} {may : Users → Operation → Prop} {username : String}

theorem taken_iff : users.taken username = true ↔ ∃ user ∈ users, user.username = username := by
  simp only [Users.taken,List.any_eq_true,beq_iff_eq]

theorem taken_grown (taken : users.taken username = true) (grows : users <+: later) : later.taken username = true := by
  obtain ⟨user,member,same⟩ := taken_iff.mp taken
  exact taken_iff.mpr ⟨user,grows.subset member,same⟩

theorem found_grown {id : UserId} {user : User} (found : users[id]? = some user) (grows : users <+: later) :
    later[id]? = some user := by
  obtain ⟨tail,rfl⟩ := grows
  rw [List.getElem?_append_left (List.getElem?_eq_some_iff.mp found).1,found]

/-- A user that may be saved: the database keeps the names unique. -/
theorem Sound.insert {user : User} (sound : Sound settings first users) (normal : settings.normalize user.username = user.username)
    (superuser : user.isSuperuser = true ∨ user.isStaff = true → user.username = settings.normalize settings.adminUsername) :
    users <+: (Operation.insert user).effect users ∧ Sound settings first ((Operation.insert user).effect users) := by
  simp only [Operation.effect]
  split
  next accepted =>
    have free : users.taken user.username = false := by
      simp only [Users.accepts,Bool.and_eq_true,Bool.not_eq_true'] at accepted
      exact accepted.1
    refine ⟨List.prefix_append _ _,sound.grown.trans (List.prefix_append _ _),?_,?_,?_⟩
    · rw [List.map_append,List.map_singleton]
      refine List.nodup_append.mpr ⟨sound.unique,List.pairwise_singleton _ _,fun name among new here same => ?_⟩
      obtain ⟨other,member,rfl⟩ := List.mem_map.mp among
      have taken := taken_iff.mpr ⟨other,member,same.trans (List.mem_singleton.mp here)⟩
      rw [free] at taken
      cases taken
    · intro one among
      rcases List.mem_append.mp among with old | new
      · exact sound.normal one old
      · cases List.mem_singleton.mp new
        exact normal
    · intro one among
      rw [List.drop_append_of_le_length sound.grown.length_le] at among
      rcases List.mem_append.mp among with old | new
      · exact sound.superusers one old
      · cases List.mem_singleton.mp new
        exact superuser
  next => exact ⟨List.prefix_rfl,sound⟩

section programs
variable (read : ∀ users, may users .read)
include read

theorem statement_secures {α : Type} {rest : Users → Outside → Authenticating α} {post : Users → Except String α → Prop}
    (continues : ∀ later b, users <+: later → Sound settings first later →
      (rest later b).Secures (regime settings first healthy) may later post)
    (refused : ¬healthy → ∀ later, post later (.error "OperationalError")) :
    (statement rest).Secures (regime settings first healthy) may users post := by
  intro later grows sound
  refine ⟨read later,List.prefix_rfl,sound,fun b fair => ?_⟩
  cases works : b.works with
  | true =>
    simp only [works,if_true]
    exact continues later b grows sound
  | false =>
    simp only [works]
    refine fun last _ _ => refused (fun good => ?_) last
    rw [fair good] at works
    cases works

theorem getUser_secures : (getUser username).Secures (regime settings first healthy) may users (fun later => fun
    | .ok id => ∃ user, later[id]? = some user ∧ user.username = username
    | .error _ => healthy → users.taken username = false) := by
  refine statement_secures read (fun later b grows sound => ?_) (fun bad _ good => absurd good bad)
  cases found : later.findIdx? (fun user => user.username == username) with
  | some id =>
    intro last more _
    obtain ⟨bound,same,_⟩ := List.findIdx?_eq_some_iff_getElem.mp found
    exact ⟨later[id],found_grown (List.getElem?_eq_getElem bound) more,by simpa using same⟩
  | none =>
    intro last _ _ _
    by_contra known
    obtain ⟨user,member,same⟩ := taken_iff.mp (taken_grown (Bool.not_eq_false _ ▸ known) grows)
    have differs := List.findIdx?_eq_none_iff.mp found user member
    rw [same,beq_self_eq_true] at differs
    cases differs

/-- A user that is saved is new. -/
theorem saveUser_secures {user : User} (inserts : ∀ users, may users (.insert user))
    (normal : settings.normalize user.username = user.username)
    (superuser : user.isSuperuser = true ∨ user.isStaff = true → user.username = settings.normalize settings.adminUsername) :
    (saveUser user).Secures (regime settings first healthy) may users (fun later => fun
      | .ok id => later[id]? = some user ∧ users.taken user.username = false
      | .error _ => healthy → later.taken user.username = true ∨ fits user.username = false) := by
  refine statement_secures read (fun later b since _ => ?_) (fun bad _ good => absurd good bad)
  intro now further sound
  obtain ⟨grows,kept⟩ := sound.insert normal superuser
  refine ⟨inserts now,grows,kept,fun _ _ => ?_⟩
  dsimp only
  cases accepted : now.accepts user with
  | true =>
    rw [if_pos rfl]
    intro last more _
    have free : now.taken user.username = false := by
      simp only [Users.accepts,Bool.and_eq_true,Bool.not_eq_true'] at accepted
      exact accepted.1
    constructor
    · have stored : (Operation.insert user).effect now = now ++ [user] := by simp only [Operation.effect,accepted,if_true]
      obtain ⟨tail,rfl⟩ := (stored ▸ more : now ++ [user] <+: last)
      simp
    · by_contra known
      rw [taken_grown (Bool.not_eq_false _ ▸ known) (since.trans further)] at free
      cases free
  | false =>
    rw [if_neg Bool.false_ne_true]
    intro last more _ _
    simp only [Users.accepts,Bool.and_eq_false_iff,Bool.not_eq_false'] at accepted
    exact accepted.imp_left (fun taken => taken_grown taken (grows.trans more))

/-- What is used of NFKC: a normal form is normal, and ASCII is. -/
structure Settings.Regular (settings : Settings) : Prop where
  idempotent : ∀ name, settings.normalize (settings.normalize name) = settings.normalize name
  ascii : ∀ name : String, (∀ char ∈ name.toList, char.toNat < 128) → settings.normalize name = name

variable (regular : settings.Regular) (inserts : ∀ users user, may users (.insert user))
include regular inserts

theorem createUser_secures {password : Option String} {isStaff isSuperuser : Bool}
    (admin : isSuperuser = true ∨ isStaff = true → username = settings.adminUsername) :
    (createUser settings username password isStaff isSuperuser).Secures (regime settings first healthy) may users
      (fun later => fun
        | .ok id => ∃ user, later[id]? = some user ∧ user.username = settings.normalize username ∧
          users.taken (settings.normalize username) = false
        | .error _ => healthy → username = "" ∨ later.taken (settings.normalize username) = true ∨
          fits (settings.normalize username) = false) := by
  unfold createUser
  split
  next empty => exact fun _ _ _ _ => .inl empty
  next =>
    refine (saveUser_secures read (fun users => inserts users _) (regular.idempotent username)
      (fun rights => congrArg settings.normalize (admin rights))).mono (fun last result _ holds => ?_)
    cases result with
    | ok id => exact ⟨_,holds.1,rfl,holds.2⟩
    | error error => exact fun good => .inr (holds good)

/-- A name that Keycloak has confirmed. -/
theorem keycloakCredentials_secures {userinfo : Except String (Option String)} (sound : Sound settings first users) :
    (keycloakCredentials settings userinfo).Secures (regime settings first healthy) may users (fun later => fun
      | .ok id => ∃ name user, userinfo = .ok (some name) ∧ later[id]? = some user ∧ user.username = settings.normalize name ∧
        (settings.normalize name = name ∨ users.taken (settings.normalize name) = false)
      | .error _ => healthy → ∀ name, userinfo = .ok (some name) → name ≠ "" → fits name = true →
        settings.normalize name ≠ name) := by
  cases userinfo with
  | error error =>
    intro last _ _ _ name same
    cases same
  | ok preferred => cases preferred with
    | none =>
      intro last _ _ _ name same
      cases same
    | some username =>
      -- a user that is found has the name itself, which then is normal
      have found {last : Users} {id : UserId} (sound : Sound settings first last)
          (there : ∃ user, last[id]? = some user ∧ user.username = username) :
          ∃ name user, (.ok (some username) : Except String (Option String)) = .ok (some name) ∧ last[id]? = some user ∧
            user.username = settings.normalize name ∧
            (settings.normalize name = name ∨ users.taken (settings.normalize name) = false) := by
        obtain ⟨user,present,rfl⟩ := there
        have normal := sound.normal user (List.mem_of_getElem? present)
        exact ⟨user.username,user,rfl,present,normal.symm,.inl normal⟩
      refine (getUser_secures read).handle sound (fun t result since sound looked => ?_)
      cases result with
      | ok id => exact fun last more sound => found sound (looked.imp (fun _ there => ⟨found_grown there.1 more,there.2⟩))
      | error =>
        -- somebody else may have created the user by now, or the name is not one that can be
        intro now further sound
        refine ⟨read now,List.prefix_rfl,sound,fun outside _ => ?_⟩
        refine (createUser_secures read regular inserts (fun rights => ?_)).handle sound (fun t result _ sound created => ?_)
        · simpa using rights
        · cases result with
          | ok id =>
            obtain ⟨user,there,same,new⟩ := created
            have free : users.taken (settings.normalize username) = false := by
              by_contra known
              exact absurd (taken_grown (Bool.not_eq_false _ ▸ known) (since.trans further)) (Bool.eq_false_iff.mp new)
            exact fun last more _ => ⟨username,user,rfl,found_grown there more,same,.inr free⟩
          | error =>
            refine (getUser_secures read).mono (fun last result sound looked => ?_)
            cases result with
            | ok id => exact found sound looked
            | error =>
              intro good name same nonempty fitting normal
              cases same
              rcases created good with empty | taken | long
              · exact nonempty empty
              · rw [normal,looked good] at taken
                cases taken
              · rw [normal,fitting] at long
                cases long

omit regular inserts

theorem jwtCredentials_secures {payload : Except JwtError (Option String)} :
    (jwtCredentials payload).Secures (regime settings first healthy) may users (fun later => fun
      | .ok id => ∃ name user, payload = .ok (some name) ∧ later[id]? = some user ∧ user.username = settings.normalize name ∧
        settings.normalize name = name
      | .error _ => True) := by
  cases payload with
  | error error => cases error <;> exact fun _ _ _ => trivial
  | ok username => cases username with
    | none => exact fun _ _ _ => trivial
    | some username =>
      refine (getUser_secures read).mono (fun last result sound looked => ?_)
      cases result with
      | ok id =>
        obtain ⟨user,there,rfl⟩ := looked
        have normal := sound.normal user (List.mem_of_getElem? there)
        exact ⟨user.username,user,rfl,there,normal.symm,normal⟩
      | error => trivial

/-- What the second authenticator makes of a request for which the first one has found no token. -/
theorem keycloak_answers (regular : settings.Regular) (inserts : ∀ users user, may users (.insert user)) {request : Request}
    (sound : Sound settings first users) (options : request.options = false) (jwt : jwtToken request = .ok none) :
    (authenticate request (keycloakToken request) (fun token => keycloakCredentials settings (request.userinfo token))).Secures
      (regime settings first healthy) may users (Answers settings healthy request users) := by
  have registers : request.registers = true := by simp only [Request.registers,options,jwt,Bool.not_false,Bool.and_self]
  simp only [authenticate,options,Bool.false_eq_true,if_false]
  cases token : keycloakToken request with
  | error error =>
    intro later _ _ _ _ name same
    simp only [Request.name,options,jwt,token,Bool.false_eq_true,if_false] at same
    cases same
  | ok token_ => cases token_ with
    | none =>
      intro later _ _
      simp only [Answers,Request.name,options,jwt,token,Bool.false_eq_true,if_false]
    | some key =>
      have named : request.name = (request.userinfo key).toOption.join := by
        simp only [Request.name,options,jwt,token,Bool.false_eq_true,if_false]
      refine (keycloakCredentials_secures read regular inserts sound).bind sound (fun t id sound found last more _ => ?_)
        (fun t error _ refused => ?_)
      · obtain ⟨name,user,same,there,normal,new⟩ := found
        exact ⟨name,user,by rw [named,same]; rfl,found_grown there more,normal,new.imp_right (fun free => ⟨registers,free⟩)⟩
      · intro good _ name same
        rw [named] at same
        refine refused good name ?_
        cases answer : request.userinfo key with
        | error => rw [answer] at same; cases same
        | ok preferred => rw [answer] at same; exact congrArg Except.ok same

/-- However a request is authenticated, it is as the name that it proves. -/
theorem authenticateRequest_secures (regular : settings.Regular) (inserts : ∀ users user, may users (.insert user))
    {request : Request} (sound : Sound settings first users) :
    (authenticateRequest settings request).Secures (regime settings first healthy) may users
      (Answers settings healthy request users) := by
  cases options : request.options with
  | true =>
    have other : request.registers = false := by simp only [Request.registers,options,Bool.not_true,Bool.false_and]
    have middle : (authenticate request (jwtToken request) (fun token => jwtCredentials (request.payload token))).Secures
        (regime settings first healthy) may users (fun later => fun
          | .ok (some id) => ∃ user, later[id]? = some user ∧ user.username = "finmars_bot"
          | .ok none => False
          | .error _ => True) := by
      simp only [authenticate,options,if_true]
      exact (getUser_secures read).bind sound (fun t id _ found last more _ =>
        found.imp (fun _ there => ⟨found_grown there.1 more,there.2⟩)) (fun _ _ _ _ => trivial)
    refine middle.bind sound (fun t who sound found => ?_) (fun t error _ _ _ registers => ?_)
    · cases who with
      | none => exact found.elim
      | some id =>
        obtain ⟨user,there,bot⟩ := found
        have normal := sound.normal user (List.mem_of_getElem? there)
        rw [bot] at normal
        exact fun last more _ => ⟨"finmars_bot",user,by simp only [Request.name,options,if_true],found_grown there more,
          bot.trans normal.symm,.inl normal⟩
    · rw [other] at registers
      cases registers
  | false => cases token : jwtToken request with
    | error error =>
      have other : request.registers = false := by simp only [Request.registers,options,token,Bool.not_false,Bool.and_false]
      have raises : authenticateRequest settings request = .raise error := by
        simp only [authenticateRequest,authenticate,options,token,Bool.false_eq_true,if_false]
        rfl
      rw [raises]
      intro later _ _ _ registers
      rw [other] at registers
      cases registers
    | ok token_ => cases token_ with
      | none =>
        have passes : authenticateRequest settings request = authenticate request (keycloakToken request)
            (fun token => keycloakCredentials settings (request.userinfo token)) := by
          simp only [authenticateRequest,authenticate,options,token,Bool.false_eq_true,if_false]
          rfl
        rw [passes]
        exact keycloak_answers read regular inserts sound options token
      | some key =>
        have other : request.registers = false := by simp only [Request.registers,options,token,Bool.not_false,Bool.and_false]
        have middle : (authenticate request (.ok (some key)) (fun token => jwtCredentials (request.payload token))).Secures
            (regime settings first healthy) may users (fun later => fun
              | .ok (some id) => ∃ name user, request.payload key = .ok (some name) ∧ later[id]? = some user ∧
                user.username = settings.normalize name ∧ settings.normalize name = name
              | .ok none => False
              | .error _ => True) := by
          simp only [authenticate,options,Bool.false_eq_true,if_false]
          refine (jwtCredentials_secures read).bind sound (fun t id _ found last more _ => ?_) (fun _ _ _ _ => trivial)
          obtain ⟨name,user,same,there,normal⟩ := found
          exact ⟨name,user,same,found_grown there more,normal⟩
        unfold authenticateRequest
        rw [token]
        refine middle.bind sound (fun t who _ found => ?_) (fun t error _ _ _ registers => ?_)
        · cases who with
          | none => exact found.elim
          | some id =>
            obtain ⟨name,user,same,there,normal,plain⟩ := found
            have named : request.name = some name := by
              simp only [Request.name,options,token,same,Bool.false_eq_true,if_false]
              rfl
            exact fun last more _ => ⟨name,user,named,found_grown there more,normal,.inl plain⟩
        · rw [other] at registers
          cases registers

end programs
end secures

section runs
variable {settings : Settings} {first : Users} {healthy : Prop} {allowed : Allowed} {events : List (Begun × Operation)}
  {last : Installation}

theorem Answers.grown {request : Request} {since users later : Users} {outcome : Except String (Option UserId)}
    (answers : Answers settings healthy request since users outcome) (grows : users <+: later) :
    Answers settings healthy request since later outcome := by
  cases outcome with
  | error => exact answers
  | ok who => cases who with
    | none => exact answers
    | some id =>
      obtain ⟨name,user,named,there,rest⟩ := answers
      exact ⟨name,user,named,found_grown there grows,rest⟩

theorem program_secures (regular : settings.Regular) (begun : Begun) (sound : Sound settings first begun.users) :
    (begun.program settings).Secures (regime settings first healthy) (May settings healthy begun) begun.users
      (fun _ _ => True) := by
  have read (users : Users) : May settings healthy begun users .read := trivial
  have inserts (users : Users) (user : User) : May settings healthy begun users (.insert user) := trivial
  obtain ⟨origin,users⟩ := begun
  cases origin with
  | request asked =>
    refine (authenticateRequest_secures read regular inserts sound).handle sound (fun t outcome _ _ answers => ?_)
    intro later grows kept
    refine ⟨fun request same => ?_,List.prefix_rfl,kept,fun _ _ _ _ _ => trivial⟩
    cases same
    exact answers.grown grows
  | bootstrap =>
    have bot : createFinmarsBot.Secures (regime settings first healthy) (May settings healthy ⟨.bootstrap,users⟩) users
        (fun _ _ => True) := by
      refine (getUser_secures read).handle sound (fun t result _ sound _ => ?_)
      cases result with
      | ok => exact fun _ _ _ => trivial
      | error =>
        refine (saveUser_secures read (fun users => inserts users _) (regular.ascii _ (by simp)) (fun rights => ?_)).bind sound
          (fun _ _ _ _ _ _ _ => trivial) (fun _ _ _ _ => trivial)
        simp at rights
    exact bot.handle sound (fun _ _ _ _ _ _ _ _ => trivial)
  | command =>
    have superuser : (generateSuperUser settings).Secures (regime settings first healthy)
        (May settings healthy ⟨.command,users⟩) users (fun _ _ => True) := by
      unfold generateSuperUser
      split
      next username password known _ =>
        have admin : username = settings.adminUsername := by rw [Settings.adminUsername,known]; rfl
        refine (getUser_secures read).handle sound (fun t result _ sound _ => ?_)
        cases result with
        | ok => exact fun _ _ _ => trivial
        | error error =>
          dsimp only
          split
          · exact (createUser_secures read regular inserts (fun _ => admin)).bind sound (fun _ _ _ _ _ _ _ => trivial)
              (fun _ _ _ _ => trivial)
          · exact fun _ _ _ => trivial
      next => exact fun _ _ _ => trivial
    exact superuser.handle sound (fun _ _ _ _ _ _ _ _ => trivial)

variable (regular : settings.Regular) (unique : (first.map User.username).Nodup)
  (normal : ∀ user ∈ first, settings.normalize user.username = user.username)
  (run : Execution settings allowed first events last)
include regular unique normal run

/-- In every run the users stay sound, and every request is answered as the name that it proves. -/
theorem run_sound (fair : ∀ view index answer, allowed view (.advance index answer) → healthy → answer.works = true) :
    Sound settings first last.shared ∧ ∀ request users outcome, Answered events request users outcome →
      Answers settings healthy request users last.shared outcome := by
  have initial : Sound settings first first := by
    refine ⟨List.prefix_rfl,unique,normal,fun user among => ?_⟩
    rw [List.drop_length] at among
    cases among
  have moves (view : View Users Begun Operation) (environment : Environment) (after : Users) (turn : Turn Begun)
      (sound : Sound settings first view.shared) (_ : allowed view (.move environment))
      (reacts : react environment view.shared (view.threads.map Prod.fst) = some (after,turn)) :
      view.shared <+: after ∧ Sound settings first after := by
    cases environment <;> cases Option.some.inj reacts <;> exact ⟨List.prefix_rfl,sound⟩
  have begins (view : View Users Begun Operation) (environment : Environment) (after : Users) (begun : Begun)
      (reacts : react environment view.shared (view.threads.map Prod.fst) = some (after,.spawn begun))
      (sound : Sound settings first after) : (begun.program settings).Secures (regime settings first healthy)
        (May settings healthy begun) after (fun _ _ => True) := by
    cases environment <;> cases Option.some.inj reacts
    exact program_secures regular _ sound
  obtain ⟨_,sound,past⟩ := Run.secured (R := regime settings first healthy) run rfl initial begins fair moves
  refine ⟨sound,fun request users outcome answered => ?_⟩
  obtain ⟨_,_,grows,_,permitted⟩ := past _ answered
  exact (permitted request rfl).grown grows

/-- Whoever logs in first and however requests overlap, one name gets one user: requests are answered with the same user
exactly if their names have the same normal form. Only the administrator's name makes a superuser. -/
theorem logins_agree :
    (∀ request users id, Answered events request users (.ok (some id)) → ∃ name user, request.name = some name ∧
      last.shared[id]? = some user ∧ user.username = settings.normalize name) ∧
    (∀ one two early late id other, Answered events one early (.ok (some id)) → Answered events two late (.ok (some other)) →
      (id = other ↔ one.name.map settings.normalize = two.name.map settings.normalize)) ∧
    first <+: last.shared ∧ ∀ user ∈ last.shared.drop first.length, user.isSuperuser = true ∨ user.isStaff = true →
      user.username = settings.normalize settings.adminUsername := by
  obtain ⟨sound,answers⟩ := run_sound regular unique normal run (fun _ _ _ _ (impossible : False) => impossible.elim)
  refine ⟨fun request users id answered => ?_,fun one two early late id other first second => ?_,sound.grown,sound.superusers⟩
  · obtain ⟨name,user,named,there,same,_⟩ := answers request users _ answered
    exact ⟨name,user,named,there,same⟩
  · obtain ⟨name,user,named,there,same,_⟩ := answers one early _ first
    obtain ⟨name',user',named',there',same',_⟩ := answers two late _ second
    simp only [named,named',Option.map_some,Option.some.injEq,← same,← same']
    constructor
    · intro equal
      subst equal
      exact congrArg User.username (Option.some.inj (there.symm.trans there'))
    · intro equal
      have bound : id < (last.shared.map User.username).length := by simpa using (List.getElem?_eq_some_iff.mp there).1
      refine (List.getElem?_inj bound sound.unique).mp ?_
      rw [List.getElem?_map,List.getElem?_map,there,there']
      exact congrArg some equal

/-- As long as the database works, a name that is its own normal form always logs in. Any other name is refused in a
request that begins when there is a user of its normal form, such as the one that its own first login has created. -/
theorem logins_succeed (works : ∀ view index answer, allowed view (.advance index answer) → answer.works = true)
    {request : Request} {users : Users} {outcome : Except String (Option UserId)} {name : String}
    (answered : Answered events request users outcome) (registers : request.registers = true)
    (named : request.name = some name) :
    (settings.normalize name = name → name ≠ "" → fits name = true → ∃ id, outcome = .ok (some id)) ∧
    (settings.normalize name ≠ name → users.taken (settings.normalize name) = true → ∃ error, outcome = .error error) := by
  obtain ⟨_,answers⟩ := run_sound regular unique normal run (fun view index answer permitted (_ : True) =>
    works view index answer permitted)
  have holds := answers request users outcome answered
  cases outcome with
  | error error =>
    exact ⟨fun plain nonempty fitting => absurd plain (holds trivial registers name named nonempty fitting),
      fun _ _ => ⟨error,rfl⟩⟩
  | ok who => cases who with
    | none => cases named.symm.trans holds
    | some id =>
      refine ⟨fun _ _ _ => ⟨id,rfl⟩,fun differs taken => ?_⟩
      obtain ⟨other,user,same,_,_,plain | ⟨_,free⟩⟩ := holds
      · cases named.symm.trans same
        exact absurd plain differs
      · cases named.symm.trans same
        rw [free] at taken
        cases taken

end runs

section samples

/-- NFKC where all that is not ASCII is a full-width letter. -/
def narrow (char : Char) : Char := if char = 'ａ' then 'a' else char

def sample : Settings where
  environUsername := none
  environPassword := none
  normalize name := String.ofList (name.toList.map narrow)

theorem sample_regular : sample.Regular := by
  refine ⟨fun name => ?_,fun name ascii => ?_⟩
  · have twice (char : Char) : narrow (narrow char) = narrow char := by
      unfold narrow
      split <;> rfl
    simp only [sample,String.toList_ofList,List.map_map]
    exact congrArg String.ofList (List.map_congr_left (fun char _ => twice char))
  · have same : name.toList.map narrow = name.toList := by
      refine (List.map_congr_left (fun char among => ?_)).trans (List.map_id _)
      refine if_neg (fun wide => ?_)
      have small := ascii char among
      rw [wide] at small
      exact absurd small (by decide)
    simp only [sample,same,String.ofList_toList]

/-- A request with a cookie whose token Keycloak knows as the name itself. -/
def cookieRequest (name : String) : Request where
  options := false
  authorization := []
  cookies := [("access_token",name)]
  userinfo token := .ok (some token)
  payload _ := .error .invalid

def working : Allowed := fun _ label => match label with
  | .advance _ answer => answer.works = true
  | _ => True

instance (view : View Users Begun Operation) (label : Label Outside Environment) : Decidable (working view label) := by
  cases label <;> unfold working <;> infer_instance

def login (name : String) : Line Outside Environment := .take (.move (.start (.request (cookieRequest name))))

/-- Both requests look for the user before either of them has created it. -/
def overlapping (name other : String) : List (Line Outside Environment) :=
  [login name,login other,.take (.advance 0 ⟨true,"r"⟩),.take (.advance 1 ⟨true,"s"⟩),
    .finish 0 ⟨true,"r"⟩,.finish 0 ⟨true,"s"⟩]

/-- The name that a request proves to Keycloak, and the user that it is answered with, if any. -/
def answered : Begun × Operation → Option (Option String × Users × Option UserId)
  | (⟨.request request,users⟩,.answer (.ok who)) => if request.registers then some (request.name,users,who) else none
  | (⟨.request request,users⟩,.answer (.error _)) => if request.registers then some (request.name,users,none) else none
  | _ => none

/-- An answer that was found in a run, and the request that it belongs to. -/
theorem answered_found {events : List (Begun × Operation)} {name : Option String} {users : Users} {who : Option UserId}
    (found : (name,users,who) ∈ events.filterMap answered) : ∃ request outcome, Answered events request users outcome ∧
      request.registers = true ∧ request.name = name ∧ (who = none ∨ outcome = .ok who) := by
  obtain ⟨⟨begun,operation⟩,member,same⟩ := List.mem_filterMap.mp found
  unfold answered at same
  split at same
  next request begun one equal =>
    cases equal
    obtain ⟨registers,pair⟩ := Option.ite_none_right_eq_some.mp same
    cases pair
    exact ⟨request,_,member,registers,rfl,.inr rfl⟩
  next request begun error equal =>
    cases equal
    obtain ⟨registers,pair⟩ := Option.ite_none_right_eq_some.mp same
    cases pair
    exact ⟨request,_,member,registers,rfl,.inl rfl⟩
  next => cases same

theorem answered_run {schedule : List (Line Outside Environment)} {answers : List (Option String × Users × Option UserId)}
    (computed : (((⟨[],[]⟩ : Installation).record ⟨Operation.effect,react⟩ (Begun.program sample) working schedule).any
      (fun run => run.1.filterMap answered == answers)) = true) :
    ∃ events last, Execution sample working [] events last ∧ events.filterMap answered = answers := by
  obtain ⟨events,last,run,found⟩ := record_any schedule computed
  exact ⟨events,last,run,beq_iff_eq.mp found⟩

/-- The second request finds that the first one, by another spelling, has created its user in between, and looks again. -/
theorem logins_agree_overlapping : ∃ (events : List (Begun × Operation)) (one two : Request) (id other : UserId),
    Answered events one [] (.ok (some id)) ∧ Answered events two [] (.ok (some other)) ∧
    one.name = some "ａnn" ∧ two.name = some "ann" ∧ id = other := by
  have computed : (((⟨[],[]⟩ : Installation).record ⟨Operation.effect,react⟩ (Begun.program sample) working
      (overlapping "ａnn" "ann")).any (fun run => run.1.filterMap answered ==
        [(some "ａnn",[],some 0),(some "ann",[],some 0)])) = true := by decide
  obtain ⟨events,last,run,found⟩ := answered_run computed
  obtain ⟨one,outcome,first,_,wide,impossible | rfl⟩ :=
    answered_found (show (some "ａnn",[],some 0) ∈ events.filterMap answered by rw [found]; decide)
  · cases impossible
  obtain ⟨two,outcome,second,_,narrow,impossible | rfl⟩ :=
    answered_found (show (some "ann",[],some 0) ∈ events.filterMap answered by rw [found]; decide)
  · cases impossible
  have agree := (logins_agree sample_regular (by decide) (by decide) run).2.1 one two [] [] 0 0 first second
  refine ⟨events,one,two,0,0,first,second,wide,narrow,agree.mpr ?_⟩
  rw [wide,narrow]
  decide

/-- The user that a first login of the other spelling leaves. -/
def ann : User := ⟨"ann",some "r",false,false,false⟩

/-- Two first logins at once, then one by another spelling, which begins when the user is there and is refused. -/
theorem logins_succeed_spellings : ∃ (events : List (Begun × Operation)) (one two : Request)
    (first second : Except String (Option UserId)), Answered events one [] first ∧ Answered events two [ann] second ∧
    one.name = some "ann" ∧ two.name = some "ａnn" ∧ (∃ id, first = .ok (some id)) ∧ ∃ error, second = .error error := by
  have computed : (((⟨[],[]⟩ : Installation).record ⟨Operation.effect,react⟩ (Begun.program sample) working
      (overlapping "ann" "ann" ++ [login "ａnn",.finish 0 ⟨true,"t"⟩])).any (fun run => run.1.filterMap answered ==
        [(some "ann",[],some 0),(some "ann",[],some 0),(some "ａnn",[ann],none)])) = true := by decide
  obtain ⟨events,last,run,found⟩ := answered_run computed
  obtain ⟨one,first,answers,registers,plain,_⟩ :=
    answered_found (show (some "ann",[],some 0) ∈ events.filterMap answered by rw [found]; decide)
  obtain ⟨two,second,others,registered,wide,_⟩ :=
    answered_found (show (some "ａnn",[ann],none) ∈ events.filterMap answered by rw [found]; decide)
  have succeed {request : Request} {users : Users} {outcome : Except String (Option UserId)} {name : String} :=
    @logins_succeed sample _ working events last sample_regular (by decide) (by decide) run (fun _ _ _ works => works)
      request users outcome name
  refine ⟨events,one,two,first,second,answers,others,plain,wide,?_,?_⟩
  · exact (succeed answers registers plain).1 (by decide) (by decide) (by decide)
  · exact (succeed others registered wide).2 (by decide) (by decide)

end samples

end FinmarsWorkflow.Authentication
