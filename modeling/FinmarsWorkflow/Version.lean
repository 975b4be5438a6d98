import FinmarsWorkflow.Data
import FinmarsWorkflow.Python.Number

/-! The four places that decide whether a workflow is one of version 2.
Each of them reads another representation: the definition in storage twice, the
foreign key of the row, and the `data` column of the template behind it. -/
namespace FinmarsWorkflow
open Python

/-- `version` of a definition: absent, a number (infinities and NaN apart) or a text. -/
inductive Version where
  | absent
  | number (value : Rat)
  | notFinite
  | text (value : String)
deriving DecidableEq

/-- What a decision finds: the version of the definition, and the `data` column of the
template with its user code in the space, if there is one. -/
structure Declared where
  version : Version
  template : Option Json

/-- `wf.get("version") == "2"` of `execute_workflow`. -/
def startsVersionTwo (declared : Declared) : Bool := match declared.version with
  | .text value => value == "2"
  | _ => false

def invalidLiteral (text : String) : Error :=
  .of ("invalid literal for int() with base 10: " ++ String.ofList ((Python.repr text).toList.take 200))

/-- `int(target_wf.get("version", 1))` of `execute_workflow_step`. -/
def stepVersion : Version → Except Error Int
  | .absent => .ok 1
  | .number value => .ok (intOfNumber value)
  | .notFinite => .error (.of "cannot convert float infinity to integer")
  | .text value => match intOfText value with
    | some version => .ok version
    | none => .error (invalidLiteral value)

/-- `if self.workflow.workflow_template` of `handle_task_success`. -/
def dispatchesNodes (declared : Declared) : Bool := declared.template.isSome

/-- `data.get("version")` of a template, whose data may be the text of a JSON document. -/
def templateVersion (loads : String → Except Error Json) (data : Json) : Except Error Json := do
  let data ← match data with
    | .str text => loads text
    | data => .ok data
  match data with
  | .obj fields => .ok ((fields.lookup "version").getD .null)
  | _ => .error (.of "object has no attribute 'get'")

/-- `get_workflow_version` -/
def getWorkflowVersion (loads : String → Except Error Json) (declared : Declared) : Except Error Int :=
  match declared.template with
  | none => .ok 1
  | some data =>
    if data.truthy then do
      match ← templateVersion loads data with
      | .str version =>
        if version != "" && isDigit version then
          match intOfText version with
          | some number => .ok number
          | none => .error (invalidLiteral version)
        else .ok 1
      | _ => .ok 1
    else .ok 1

/-- All four decisions are the same. -/
def Agree (loads : String → Except Error Json) (declared : Declared) : Prop :=
  (startsVersionTwo declared = true ↔ stepVersion declared.version = .ok 2) ∧
    (stepVersion declared.version = .ok 2 ↔ dispatchesNodes declared = true) ∧
    (dispatchesNodes declared = true ↔ getWorkflowVersion loads declared = .ok 2)

/-- A version that `int` turns into 2. -/
def ReadsTwo : Version → Prop
  | .number value => 2 ≤ value ∧ value < 3
  | .text value => intOfText value = some 2
  | _ => False

/-- A template that names version 2 by a text of digits. -/
def NamesTwo (loads : String → Except Error Json) (data : Json) : Prop :=
  data.truthy = true ∧ ∃ version, templateVersion loads data = .ok (.str version) ∧ isDigit version = true ∧
    intOfText version = some 2

theorem stepVersion_two (version : Version) : stepVersion version = .ok 2 ↔ ReadsTwo version := by
  cases version with
  | absent => simp [stepVersion,ReadsTwo]
  | notFinite => simp [stepVersion,ReadsTwo]
  | number value =>
    have bounds := @intOfNumber_eq_iff value 2 (by decide)
    simpa [stepVersion,ReadsTwo] using bounds
  | text value => cases read : intOfText value <;> simp [stepVersion,ReadsTwo,read]

theorem startsVersionTwo_reads {declared : Declared} (starts : startsVersionTwo declared = true) : ReadsTwo declared.version := by
  unfold startsVersionTwo at starts
  cases version : declared.version with
  | text value =>
    simp only [version,beq_iff_eq] at starts
    subst starts
    exact (by decide : intOfText "2" = some 2)
  | absent => simp [version] at starts
  | number value => simp [version] at starts
  | notFinite => simp [version] at starts

theorem getWorkflowVersion_two (loads : String → Except Error Json) (version : Version) (data : Json) :
    getWorkflowVersion loads ⟨version,some data⟩ = .ok 2 ↔ NamesTwo loads data := by
  unfold getWorkflowVersion NamesTwo
  cases truth : data.truthy with
  | false => simp [truth]
  | true =>
    cases read : templateVersion loads data with
    | error error => simp [truth,read,bind,Except.bind]
    | ok value => cases value with
      | str text =>
        cases digits : isDigit text with
        | false => simp [truth,read,bind,Except.bind,digits]
        | true =>
          have named : (text != "") = true := by
            rw [isDigit,Bool.and_eq_true] at digits
            exact digits.1
          cases number : intOfText text <;> simp [truth,read,bind,Except.bind,digits,named,number]
      | null => simp [truth,read,bind,Except.bind]
      | bool value => simp [truth,read,bind,Except.bind]
      | num value => simp [truth,read,bind,Except.bind]
      | float value => simp [truth,read,bind,Except.bind]
      | arr items => simp [truth,read,bind,Except.bind]
      | obj fields => simp [truth,read,bind,Except.bind]

theorem startsVersionTwo_iff (version : Version) (template : Option Json) :
    startsVersionTwo ⟨version,template⟩ = true ↔ version = .text "2" := by
  cases version <;> simp [startsVersionTwo]

/-- The four decisions agree exactly if nothing says 2 and there is no template, or
the definition has the text `2` and the template names version 2 as well. -/
theorem agree_iff (loads : String → Except Error Json) (version : Version) (template : Option Json) :
    Agree loads ⟨version,template⟩ ↔
      (template = none ∧ version ≠ .text "2" ∧ ¬ ReadsTwo version) ∨
        (version = .text "2" ∧ ∃ data, template = some data ∧ NamesTwo loads data) := by
  have reads : version = .text "2" → ReadsTwo version := fun same =>
    @startsVersionTwo_reads ⟨version,template⟩ ((startsVersionTwo_iff _ _).mpr same)
  unfold Agree
  rw [startsVersionTwo_iff,stepVersion_two]
  cases template with
  | none =>
    have unattached : dispatchesNodes ⟨version,none⟩ = false := rfl
    have first : getWorkflowVersion loads ⟨version,none⟩ = .ok 1 := rfl
    rw [unattached,first]
    constructor
    · intro agree
      obtain ⟨starts,steps,_⟩ := agree
      have unread : ¬ ReadsTwo version := fun two => by cases steps.mp two
      exact .inl ⟨rfl,fun same => unread (starts.mp same),unread⟩
    · intro holds
      rcases holds with ⟨_,other,unread⟩ | ⟨_,data,same,_⟩
      · exact ⟨iff_of_false other unread,iff_of_false unread (by decide),by simp⟩
      · cases same
  | some data =>
    have attached : dispatchesNodes ⟨version,some data⟩ = true := rfl
    rw [attached,getWorkflowVersion_two]
    constructor
    · intro agree
      obtain ⟨starts,steps,names⟩ := agree
      exact .inr ⟨starts.mpr (steps.mpr rfl),data,rfl,names.mp rfl⟩
    · intro holds
      rcases holds with ⟨same,_⟩ | ⟨same,other,found,names⟩
      · cases same
      · cases found
        exact ⟨iff_of_true same (reads same),iff_of_true (reads same) rfl,iff_of_true rfl names⟩

/-- A definition without a template whose version is the number 2. -/
theorem number_two_disagrees : ¬ Agree (fun _ => .error (.of "no JSON document")) ⟨.number 2,none⟩ := by
  intro agree
  have reads : stepVersion (.number 2) = .ok 2 := by rfl
  have starts := agree.1.mpr reads
  cases starts

end FinmarsWorkflow
