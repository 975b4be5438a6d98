import FinmarsWorkflow.Registry

/-! A request to run a workflow, from the posted code to the definition.
The view completes the code with its space, the manager takes the space from the
code again when the definition is not loaded yet, and the launch takes the code of
the template from it. -/
namespace FinmarsWorkflow.Tenant
open Python

/-- What a call of `get_by_user_code` finds: the files and schemas, and the exception of
synchronising the folder of a module, if it ends in one. -/
structure Finding where
  site : Site
  sync : String → Option String

/-- `user_code.split(".")[0]` -/
def leadingSpace (userCode : String) : String := (split '.' userCode).headD ""

/-- `user_code[len(space_code) + 1 :].replace(".", "/").replace(":", "/")` -/
def definitionPath (userCode : String) : List Char :=
  (userCode.toList.drop ((leadingSpace userCode).length + 1)).map (fun char => if char = '.' ∨ char = ':' then '/' else char)

/-- `module_path, _ = path.rsplit("/", maxsplit=1)`, which fails without a slash. -/
def modulePath (userCode : String) : Except String String :=
  if '/' ∈ definitionPath userCode then
    .ok (String.ofList ((definitionPath userCode).reverse.dropWhile (· != '/')).tail.reverse)
  else .error "not enough values to unpack (expected 2, got 1)"

/-- `get_by_user_code` with `sync_remote`. A stored definition is never empty. -/
def getByUserCode (finding : Finding) (userCode : String) (session : Session) : Except String Definition × Session :=
  match session.workflows.lookup userCode with
  | some definition => (.ok definition,session)
  | none => match modulePath userCode with
    | .error error => (.error error,session)
    | .ok path => match finding.sync path with
      | some error => (.error error,session)
      | none => match registerWorkflows finding.site (some (leadingSpace userCode)) session with
        | (.error error,after) => (.error error,after)
        | (.ok (),after) => match after.workflows.lookup userCode with
          | some definition => (.ok definition,after)
          | none => (.error ("Workflow " ++ userCode ++ " not found"),after)

/-- `if request.space_code not in user_code: user_code = f"{request.space_code}.{user_code}"` -/
def qualifiedCode (space userCode : String) : String :=
  if contains space userCode then userCode else space ++ "." ++ userCode

/-- What is launched: the key and the definition found under it, and the user code of
the template that is searched for. -/
structure Launch where
  userCode : String
  definition : Definition
  templateUserCode : String

/-- `execute_workflow`, up to the search for the template. -/
def executeWorkflow (finding : Finding) (userCode : String) (session : Session) : Except String Launch × Session :=
  match getByUserCode finding userCode session with
  | (.error error,after) => (.error error,after)
  | (.ok definition,after) => (.ok ⟨userCode,definition,join '.' (split '.' userCode).tail⟩,after)

/-- `run_workflow`, the same for workflows and for templates: the definition is looked
up before the launch looks it up again. -/
def runWorkflow (first second : Finding) (space userCode : String) (session : Session) : Except String Launch × Session :=
  match getByUserCode first (qualifiedCode space userCode) session with
  | (.error error,after) => (.error error,after)
  | (.ok _,after) => executeWorkflow second (qualifiedCode space userCode) after

/-- The posted code without the leading code of the space. -/
def strippedCode (space userCode : String) : String :=
  if startsWith (space ++ ".") userCode then String.ofList (userCode.toList.drop (space.length + 1)) else userCode

/-- The spaces that a call meets have codes free of dots. -/
def Finding.Plain (finding : Finding) : Prop :=
  ∀ schema row, finding.site.space schema = some row → Without '.' row.spaceCode

/-- What a request for a space does, whatever was loaded before and is found now: its
key is that of the space, it selects no other search path, and what it launches is a
definition of the space with the template of the same code. -/
structure StaysInSpace (space userCode : String) : Prop where
  key : qualifiedCode space userCode = space ++ "." ++ strippedCode space userCode
  request : ∀ (history : List Registration) (first second : Finding), Plain history → first.Plain → second.Plain →
    (∀ path ∈ (runWorkflow first second space userCode ⟨(replay history).workflows,[]⟩).2.searchPaths, path = space) ∧
    ∀ launch, (runWorkflow first second space userCode ⟨(replay history).workflows,[]⟩).1 = .ok launch →
      launch.userCode = space ++ "." ++ strippedCode space userCode ∧
      Owned space (launch.userCode,launch.definition) ∧
      launch.templateUserCode = strippedCode space userCode

section codes
variable {space userCode rest : String}

theorem strippedCode_append : strippedCode space (space ++ "." ++ rest) = rest := by
  have starts : startsWith (space ++ ".") (space ++ "." ++ rest) = true := startsWith_iff.mpr ⟨rest,rfl⟩
  have chars : (space ++ "." ++ rest).toList = (space.toList ++ ['.']) ++ rest.toList := by simp
  rw [strippedCode,if_pos starts,chars,List.drop_left' (by simp [String.length_toList])]
  exact String.ofList_toList

theorem contains_append : contains space (space ++ "." ++ rest) = true := by
  simp only [contains,decide_eq_true_eq]
  exact ⟨[],'.'::rest.toList,by simp⟩

/-- The completed code is that of the space exactly if the code of the space does not
occur in the posted code, or stands at its beginning. -/
theorem qualifiedCode_iff : qualifiedCode space userCode = space ++ "." ++ strippedCode space userCode ↔
    contains space userCode = false ∨ startsWith (space ++ ".") userCode = true := by
  cases starts : startsWith (space ++ ".") userCode with
  | true =>
    obtain ⟨rest,rfl⟩ := startsWith_iff.mp starts
    simp [qualifiedCode,contains_append,strippedCode_append]
  | false =>
    rw [strippedCode,if_neg (by simp [starts]),qualifiedCode]
    cases inside : contains space userCode with
    | true =>
      simp only [if_true,Bool.true_eq_false,Bool.false_eq_true,or_self,iff_false]
      intro same
      have lengths := congrArg String.length same
      simp only [String.length_append] at lengths
      have dot : ".".length = 1 := rfl
      omega
    | false => simp

theorem leadingSpace_append (plain : Without '.' space) : leadingSpace (space ++ "." ++ rest) = space := by
  have parts : split '.' (space ++ "." ++ rest) = space::split '.' rest := split_append plain
  rw [leadingSpace,parts]
  rfl

theorem templateCode_append (plain : Without '.' space) : join '.' (split '.' (space ++ "." ++ rest)).tail = rest := by
  have parts : split '.' (space ++ "." ++ rest) = space::split '.' rest := split_append plain
  rw [parts,List.tail_cons,join_split]

end codes

section request
variable {space rest : String} {session : Session} {finding : Finding}

/-- The dictionary is keyed, and only the space has been selected. -/
structure Within (space : String) (session : Session) : Prop where
  keyed : Keyed session.workflows
  paths : ∀ path ∈ session.searchPaths, path = space

theorem lookup_owned (keyed : Keyed session.workflows) (plain : Without '.' space) {definition : Definition}
    (found : session.workflows.lookup (space ++ "." ++ rest) = some definition) :
    Owned space (space ++ "." ++ rest,definition) := by
  obtain ⟨front,back,same,_⟩ := List.lookup_eq_some_iff.mp found
  have member : (space ++ "." ++ rest,definition) ∈ session.workflows := by simp [same]
  obtain ⟨owner,dotless,owned⟩ := keyed.owned _ member
  have parts := owned
  obtain ⟨_,code,_,_,_,names⟩ := parts
  have same : space ++ String.singleton '.' ++ rest = owner ++ String.singleton '.' ++ code := names
  obtain ⟨rfl,_⟩ := append_separator_inj plain dotless same
  exact owned

theorem loads_plain {site : Site} (plain : ∀ schema row, site.space schema = some row → Without '.' row.spaceCode)
    (schemas : List String) : ∀ load ∈ site.loads schemas, Without '.' load.space.spaceCode := by
  induction schemas with
  | nil => exact fun _ member => absurd member List.not_mem_nil
  | cons schema rest ih =>
    intro load member
    simp only [Site.loads] at member
    split at member
    · exact ih load member
    · split at member
      · rcases List.mem_append.mp member with here | later
        · obtain ⟨row,found,rfl⟩ := Option.map_eq_some_iff.mp (Option.mem_toList.mp here)
          exact plain schema row found
        · exact ih load later
      · cases member

theorem searchPaths_load (load : Option Load) : (session.load load).searchPaths = session.searchPaths := by
  cases load <;> rfl

/-- Registering a space selects that space and no other. -/
theorem registered_within (plain : finding.Plain) (named : space ≠ "") (within : Within space session) :
    Within space (registerWorkflows finding.site (some space) session).2 := by
  have code : (some space).filter (· != "") = some space := by simp [named]
  refine ⟨?_,fun path member => ?_⟩
  · rw [registerWorkflows_loads ⟨finding.site,some space⟩]
    refine loaded_keyed (fun load member => ?_) within.keyed
    simp only [Registration.loads,code] at member
    split at member
    · exact loads_plain plain _ load member
    · cases member
  · simp only [registerWorkflows,code] at member
    split at member
    · simp only [registerSchemas] at member
      split at member
      · exact within.paths path member
      · split at member
        · rw [searchPaths_load] at member
          rcases List.mem_cons.mp member with here | earlier
          · exact here
          · exact within.paths path earlier
        · exact within.paths path member
    · exact within.paths path member

/-- Looking up a key of the space stays within it and finds a definition of it. -/
theorem getByUserCode_within (rest : String) (plain : finding.Plain) (named : space ≠ "") (dotless : Without '.' space)
    (within : Within space session) :
    Within space (getByUserCode finding (space ++ "." ++ rest) session).2 ∧
    ∀ definition, (getByUserCode finding (space ++ "." ++ rest) session).1 = .ok definition →
      Owned space (space ++ "." ++ rest,definition) := by
  have registered := registered_within plain named within
  unfold getByUserCode
  rw [leadingSpace_append dotless]
  split
  next found =>
    refine ⟨within,fun definition same => ?_⟩
    cases same
    exact lookup_owned within.keyed dotless found
  next =>
    split
    · exact ⟨within,fun _ same => by cases same⟩
    · split
      · exact ⟨within,fun _ same => by cases same⟩
      · split
        next after failed =>
          rw [failed] at registered
          exact ⟨registered,fun _ same => by cases same⟩
        next after done =>
          rw [done] at registered
          split
          next found =>
            refine ⟨registered,fun definition same => ?_⟩
            cases same
            exact lookup_owned registered.keyed dotless found
          next => exact ⟨registered,fun _ same => by cases same⟩

end request

/-- A space without a dot in its code that does not occur in the posted code, or only
begins it, keeps its requests to itself. -/
theorem stays_within {space userCode : String} (named : space ≠ "") (dotless : Without '.' space)
    (plain : contains space userCode = false ∨ startsWith (space ++ ".") userCode = true) :
    StaysInSpace space userCode := by
  have key := qualifiedCode_iff.mpr plain
  refine ⟨key,fun history first second loaded found again => ?_⟩
  have within : Within space ⟨(replay history).workflows,[]⟩ :=
    ⟨replay_keyed loaded,fun _ member => absurd member List.not_mem_nil⟩
  obtain ⟨inside,_⟩ := getByUserCode_within (strippedCode space userCode) found named dotless within
  unfold runWorkflow
  rw [key]
  split
  next failed =>
    rw [failed] at inside
    exact ⟨inside.paths,fun _ same => by cases same⟩
  next after done =>
    rw [done] at inside
    obtain ⟨later,owned⟩ := getByUserCode_within (strippedCode space userCode) again named dotless inside
    unfold executeWorkflow
    split
    next failed =>
      rw [failed] at later
      exact ⟨later.paths,fun _ same => by cases same⟩
    next definition final ended =>
      rw [ended] at later owned
      refine ⟨later.paths,fun launch same => ?_⟩
      cases same
      exact ⟨rfl,owned definition rfl,templateCode_append dotless⟩

/-- One tenant with one definition. -/
def oneTenant (space userCode : String) : Site where
  schemas := ["schema"]
  known _ := true
  refuses _ := none
  space _ := some ⟨none,space⟩
  files _ := [definitionFile userCode]

/-- Nothing is found. -/
def nothingFound : Finding := ⟨⟨[],fun _ => false,fun _ => none,fun _ => none,fun _ => []⟩,fun _ => none⟩

theorem nothingFound_plain : nothingFound.Plain := fun _ _ found => by cases found

/-- The definition of the file of a tenant. -/
def tenantDefinition (space userCode : String) : Definition :=
  .map [(.str "workflow",.map [(.str "user_code",.str userCode),(.str "realm_code",.other "None"),
    (.str "space_code",.str space)])]

theorem oneTenant_workflows (space userCode : String) : (replay [⟨oneTenant space userCode,none⟩]).workflows =
    [(space ++ "." ++ userCode,tenantDefinition space userCode)] := rfl

theorem oneTenant_plain {space : String} (dotless : Without '.' space) (userCode : String) :
    Plain [⟨oneTenant space userCode,none⟩] := by
  intro load member
  have only : [(⟨oneTenant space userCode,none⟩ : Registration)].flatMap Registration.loads =
    [⟨⟨none,space⟩,[definitionFile userCode]⟩] := rfl
  rw [only] at member
  cases List.mem_singleton.mp member
  exact dotless

theorem tenant_request {space key : String} {definition : Definition} {history : List Registration} {userCode : String}
    (stored : (replay history).workflows = [(key,definition)]) (named : qualifiedCode space userCode = key) :
    (runWorkflow nothingFound nothingFound space userCode ⟨(replay history).workflows,[]⟩).1 =
      .ok ⟨key,definition,join '.' (split '.' key).tail⟩ := by
  simp only [runWorkflow,executeWorkflow,getByUserCode,named,stored,List.lookup_cons_self]

/-- A code with a dot is taken for the code of another space. -/
theorem dotted_leaves {space userCode : String} (dotted : ¬Without '.' space) : ¬StaysInSpace space userCode := by
  intro stays
  obtain ⟨front,back,chars,absent⟩ := List.eq_append_cons_of_mem (Decidable.not_not.mp dotted)
  have same : space = String.ofList front ++ "." ++ String.ofList back :=
    String.toList_inj.mp (by simpa using chars)
  have dotless : Without '.' (String.ofList front) := by simpa [Without] using absent
  have joined (rest : String) :
      space ++ "." ++ rest = String.ofList front ++ "." ++ (String.ofList back ++ "." ++ rest) := by
    rw [same]
    simp only [String.append_assoc]
  have key := stays.key.trans (joined (strippedCode space userCode))
  have request := stays.request _ nothingFound nothingFound
    (oneTenant_plain dotless (String.ofList back ++ "." ++ strippedCode space userCode)) nothingFound_plain nothingFound_plain
  have launched := tenant_request (oneTenant_workflows _ _) key
  obtain ⟨_,⟨_,_,workflow,there,_⟩,_⟩ := request.2 _ launched
  cases workflow
  have equal : String.ofList front = space := Yaml.str.inj (Option.some.inj there)
  exact dotted (equal ▸ dotless)

/-- A request stays in its space exactly if the code of the space has no dot and the
posted code does not mention it, or begins with it. -/
theorem run_request_stays (space userCode : String) (routed : space ≠ "") : StaysInSpace space userCode ↔
    Without '.' space ∧ (contains space userCode = false ∨ startsWith (space ++ ".") userCode = true) := by
  constructor
  · intro stays
    refine ⟨?_,qualifiedCode_iff.mp stays.key⟩
    by_contra dotted
    exact dotted_leaves dotted stays
  · rintro ⟨dotless,plain⟩
    exact stays_within routed dotless plain

theorem run_request_stays_own : StaysInSpace "space0" "space0.a:run" ∧ StaysInSpace "space0" "a:run" ∧
    ¬StaysInSpace "space0" "space1.a:space0" :=
  ⟨(run_request_stays "space0" "space0.a:run" (by decide)).mpr (by decide),
    (run_request_stays "space0" "a:run" (by decide)).mpr (by decide),
    fun stays => absurd ((run_request_stays "space0" "space1.a:space0" (by decide)).mp stays) (by decide)⟩

/-- A code that mentions the space after that of another tenant selects the schema of
the other tenant and launches its definition. -/
theorem run_request_leaves_space : ¬StaysInSpace "space0" "space1.a:space0" ∧
    runWorkflow ⟨oneTenant "space1" "a:space0",fun _ => none⟩ nothingFound "space0" "space1.a:space0" ⟨[],[]⟩ =
      (.ok ⟨"space1.a:space0",tenantDefinition "space1" "a:space0","a:space0"⟩,
        ⟨[("space1.a:space0",tenantDefinition "space1" "a:space0")],["space1"]⟩) := by
  refine ⟨fun stays => ?_,rfl⟩
  have plain := qualifiedCode_iff.mp stays.key
  exact absurd plain (by decide)

end FinmarsWorkflow.Tenant
