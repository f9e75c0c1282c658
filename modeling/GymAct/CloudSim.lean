import GymAct.Dependence
import GymAct.Fallible
import GymAct.Runs
import GymAct.Value

/-!
# The simulated clouds

`CloudStateMachine` : three clouds, each with its resources and bindings, and operations of
seven effects on them. Resources are looked up in one cloud by most operations, and in all of
them by dependencies and by the sources of bindings.

A resource may be created in one cloud under an id that is live in another, and a deletion
removes the bindings of its own cloud only. Quotas count the resources of one service and
type, where several may share a quota key. `cloud_integrity` : in runs without these, the
clouds refer to what is there only, without cycles and within their quotas.
-/

namespace GymAct

namespace CloudSim

/-! ## Operations -/

/-- `CLOUDS`. -/
inductive Cloud
  | aws | azure | gcp
  deriving DecidableEq, Repr

def Cloud.value : Cloud → String
  | aws => "aws"
  | azure => "azure"
  | gcp => "gcp"

def clouds : List Cloud := [.aws, .azure, .gcp]

theorem mem_clouds (c : Cloud) : c ∈ clouds := by cases c <;> decide

inductive Effect
  | create | update | delete | bind | unbind | transition | invoke
  deriving DecidableEq, Repr

def Effect.value : Effect → String
  | create => "CREATE"
  | update => "UPDATE"
  | delete => "DELETE"
  | bind => "BIND"
  | unbind => "UNBIND"
  | transition => "TRANSITION"
  | invoke => "INVOKE"

def effects : List Effect := [.create, .update, .delete, .bind, .unbind, .transition, .invoke]

structure CloudOperation where
  cloud : Cloud
  service : String
  operation : String
  effect : Effect
  scope : String
  region : String
  resourceType : String
  name : String
  resourceId : Option String
  properties : Payload
  dependsOn : List String
  visibilityDelay : ℕ
  deriving DecidableEq, Repr

/-- What needs tables of Unicode : `str.upper`, and the `repr` of a string. -/
structure TextTables where
  upper : String → String
  repr : String → String

/-- `s.strip()`. -/
def strip (s : String) : String :=
  String.ofList (((s.toList.dropWhile isSpace).reverse.dropWhile isSpace).reverse)

section Payloads

variable (tables : TextTables) (payload : Payload)

def valueError {α : Type} (message : String) : Except PyError α := throw ⟨"ValueError", message⟩

def typeError {α : Type} (message : String) : Except PyError α := throw ⟨"TypeError", message⟩

/-- A non-empty string, stripped. -/
def nonEmpty (key suffix : String) : Value → Except PyError String
  | .str s =>
    if isBlank s then valueError ("payload." ++ key ++ " must be a non-empty string" ++ suffix)
    else return strip s
  | _ => valueError ("payload." ++ key ++ " must be a non-empty string" ++ suffix)

/-- `_required`. -/
def required (key : String) : Except PyError String :=
  nonEmpty key "" ((payload.lookup key).getD .null)

/-- `_optional`. -/
def optional (key default : String) : Except PyError String :=
  nonEmpty key "" ((payload.lookup key).getD (.str default))

/-- `_optional_nullable`. -/
def optionalNullable (key : String) : Except PyError (Option String) :=
  match (payload.lookup key).getD .null with
  | .null => return none
  | v => do
    let s ← nonEmpty key " when supplied" v
    return some s

/-- `_object`. -/
def object (key : String) : Except PyError Payload :=
  match (payload.lookup key).getD (.dict []) with
  | .dict items => return items
  | _ => typeError ("payload." ++ key ++ " must be an object")

/-- `_strings`. -/
def strings (key : String) : Except PyError (List String) :=
  match (payload.lookup key).getD (.list []) with
  | .list items => items.mapM fun
    | .str s =>
      if isBlank s then valueError ("payload." ++ key ++ " entries must be non-empty strings")
      else return strip s
    | _ => valueError ("payload." ++ key ++ " entries must be non-empty strings")
  | _ => typeError ("payload." ++ key ++ " must be an array")

/-- `_nonnegative_int`. -/
def nonnegativeInt (key : String) (default : ℕ) : Except PyError ℕ :=
  match (payload.lookup key).getD (.int default) with
  | .int n =>
    if n < 0 then valueError ("payload." ++ key ++ " must be a non-negative integer")
    else return n.toNat
  | _ => valueError ("payload." ++ key ++ " must be a non-negative integer")

/-- `Effect(value)`. -/
def Effect.ofValue (value : String) : Except PyError Effect :=
  match effects.find? (·.value = value) with
  | some effect => return effect
  | none => valueError (tables.repr value ++ " is not a valid Effect")

/-- `CloudOperation.from_payload`. -/
def CloudOperation.fromPayload (cloud : Cloud) : Except PyError CloudOperation := do
  let service ← required payload "service"
  let operation ← required payload "operation"
  let effectName ← required payload "effect"
  let effect ← Effect.ofValue tables (tables.upper effectName)
  let scope ← optional payload "scope" "prod"
  let region ← optional payload "region" "us-east"
  let resourceType ← optional payload "resource_type" "resource"
  let name ← optional payload "name" "operation"
  let resourceId ← optionalNullable payload "resource_id"
  let properties ← object payload "properties"
  let dependsOn ← strings payload "depends_on"
  let visibilityDelay ← nonnegativeInt payload "visibility_delay" 0
  return ⟨cloud, service, operation, effect, scope, region, resourceType, name, resourceId, properties,
    dependsOn, visibilityDelay⟩

end Payloads

/-! ## The state machine -/

structure CloudResource where
  id : String
  cloud : Cloud
  service : String
  resourceType : String
  name : String
  scope : String
  region : String
  properties : Payload
  dependsOn : List String
  lifecycle : String
  createdAt : ℕ
  updatedAt : ℕ
  visibleAt : ℕ
  visible : Bool
  deriving DecidableEq, Repr

structure Binding where
  source : String
  target : String
  relation : String
  deriving DecidableEq, Repr

/-- The `detail` of an event, by what it is about. -/
inductive EventDetail
  | advance (ticks : ℕ)
  | resource (resource : CloudResource)
  | deleted (resourceId : String)
  | binding (binding : Binding)
  | removed (count : ℕ)
  | invocation (scope region : String) (properties : Payload)
  deriving DecidableEq, Repr

structure CloudEvent where
  sequence : ℕ
  clock : ℕ
  cloud : String
  service : String
  operation : String
  detail : EventDetail
  deriving DecidableEq, Repr

structure Location where
  scopes : List String
  regions : List String
  deriving DecidableEq, Repr

/-- `_state`. The dictionary of a cloud's resources is the list of them, each under its id. -/
structure CloudState where
  logicalClock : ℕ := 0
  sequence : ℕ := 0
  topology : Cloud → Location
  resources : Cloud → List CloudResource := fun _ => []
  bindings : Cloud → List Binding := fun _ => []
  events : List CloudEvent := []

/-- `CloudStateMachine`. `normalize_quotas` and `normalize_faults` let no negative number
through. -/
structure Machine where
  state : CloudState
  quotas : List (String × ℕ)
  faults : List (String × ℕ)

/-- What a call returns : what it did, and its event. -/
abbrev CloudReply := EventDetail × CloudEvent

/-- A program over a machine. -/
abbrev CloudM (α : Type) := Fallible.Prog PyError Machine α

namespace CloudState

variable (st : CloudState)

def find (cloud : Cloud) (id : String) : Option CloudResource :=
  (st.resources cloud).find? (·.id = id)

/-- `_resource_exists`. -/
def resourceExists (id : String) : Bool := clouds.any fun c => (st.resources c).any (·.id = id)

/-- `_dependents`. -/
def dependents (id : String) : List String :=
  clouds.flatMap fun c => ((st.resources c).filter (id ∈ ·.dependsOn)).map (·.id)

/-- The state in which an operation runs. -/
def counted : CloudState := { st with sequence := st.sequence + 1 }

/-- A new resource of a cloud. -/
def addResource (cloud : Cloud) (r : CloudResource) : CloudState :=
  { st with resources := Function.update st.resources cloud (st.resources cloud ++ [r]) }

/-- Resources changed where they stand. -/
def mapResources (g : Cloud → CloudResource → CloudResource) : CloudState :=
  { st with resources := fun c => (st.resources c).map (g c) }

def setBindings (cloud : Cloud) (bindings : List Binding) : CloudState :=
  { st with bindings := Function.update st.bindings cloud bindings }

/-- A resource deleted, with the bindings of its cloud that name it. -/
def removeResource (cloud : Cloud) (id : String) : CloudState :=
  { st.setBindings cloud
      ((st.bindings cloud).filter fun b => b.source ≠ id ∧ b.target ≠ id) with
    resources := Function.update st.resources cloud ((st.resources cloud).filter (·.id ≠ id)) }

/-- `_refresh_visibility`. -/
def refreshVisibility : CloudState :=
  st.mapResources fun _ r => { r with visible := r.visibleAt ≤ st.logicalClock }

/-- A later clock. -/
def advanced (ticks : ℕ) : CloudState :=
  CloudState.refreshVisibility { st with logicalClock := st.logicalClock + ticks }

/-- A further event. -/
def logged (e : CloudEvent) : CloudState := { st with events := st.events ++ [e] }

end CloudState

def quotaKey (cloud : Cloud) (service resourceType : String) : String :=
  cloud.value ++ ":" ++ service ++ ":" ++ resourceType

namespace CloudOperation

variable (op : CloudOperation)

/-- The `resource_id`, unless it is empty. -/
def namedId : Option String := op.resourceId.filter (· ≠ "")

/-- `f"{n:06d}"`. -/
def sixDigits (n : ℕ) : String :=
  String.ofList (List.replicate (6 - (toString n).length) '0') ++ toString n

/-- `_resource_id`. -/
def generatedId (sequence : ℕ) : String :=
  let token := op.resourceType ++ "/" ++ op.name ++ "-" ++ sixDigits sequence
  match op.cloud with
  | .aws => "arn:aws:" ++ op.service ++ ":" ++ op.region ++ ":000000000000:" ++ token
  | .azure => "/subscriptions/00000000-0000-0000-0000-000000000000/resourceGroups/" ++ op.scope ++
      "/providers/GymAct." ++ op.service ++ "/" ++ token
  | .gcp => "projects/gymact-simulated/locations/" ++ op.region ++ "/" ++ token

/-- The id that a creation uses, the sequence number being counted up. -/
def newId (sequence : ℕ) : String := op.namedId.getD (op.generatedId sequence)

/-- The source of a binding. -/
def source : Value :=
  match op.namedId with
  | some id => .str id
  | none => (op.properties.lookup "source").getD .null

def target : Value := (op.properties.lookup "target").getD .null

def relation : Value := (op.properties.lookup "relation").getD (.str "permission")

end CloudOperation

/-- A string, if it is not empty. -/
def asText : Value → Option String
  | .str s => if s = "" then none else some s
  | _ => none

/-- `_validate_location`. -/
def validateLocation (op : CloudOperation) : CloudM Unit := do
  let m ← get
  if op.scope ∉ (m.state.topology op.cloud).scopes then
    throw ⟨"ValueError", "scope is outside admitted topology: " ++ op.scope⟩
  else if op.region ∉ (m.state.topology op.cloud).regions then
    throw ⟨"ValueError", "region is outside admitted topology: " ++ op.region⟩
  else return ()

def faultKey (op : CloudOperation) : String :=
  op.cloud.value ++ ":" ++ op.service ++ ":" ++ op.operation

/-- `_maybe_fail`. -/
def maybeFail (op : CloudOperation) : CloudM Unit := do
  let m ← get
  let remaining := (m.faults.lookup (faultKey op)).getD 0
  if remaining = 0 then return ()
  else do
    let spent (item : String × ℕ) := if item.1 = faultKey op then (item.1, remaining - 1) else item
    modify fun m => { m with faults := m.faults.map spent }
    throw ⟨"RuntimeError", "injected cloud fault: " ++ faultKey op⟩

/-- `_event`. -/
def event (cloud service operation : String) (detail : EventDetail) : CloudM CloudEvent := do
  let m ← get
  let e : CloudEvent :=
    ⟨m.state.events.length + 1, m.state.logicalClock, cloud, service, operation, detail⟩
  modify fun m => { m with state := m.state.logged e }
  return e

/-- The end of an operation : its event, and what it returns. -/
def answer (op : CloudOperation) (detail : EventDetail) : CloudM CloudReply := do
  let e ← event op.cloud.value op.service op.operation detail
  return (detail, e)

/-- `_require_resource`. -/
def requireResource (op : CloudOperation) : CloudM CloudResource := do
  let m ← get
  match op.namedId with
  | none => throw ⟨"ValueError", op.effect.value ++ " requires payload.resource_id"⟩
  | some id =>
    match m.state.find op.cloud id with
    | none => throw ⟨"ValueError", "resource does not exist: " ++ id⟩
    | some r => return r

/-- How many resources a new one is counted with by `_check_quota`. -/
def quotaCount (st : CloudState) (op : CloudOperation) : ℕ :=
  ((st.resources op.cloud).filter fun r =>
    r.service = op.service ∧ r.resourceType = op.resourceType).length

/-- `_check_quota` raises. -/
def quotaExceeded (m : Machine) (op : CloudOperation) : Bool :=
  match m.quotas.lookup (quotaKey op.cloud op.service op.resourceType) with
  | none => false
  | some limit => limit ≤ quotaCount m.state op

/-- The resource that a creation makes. -/
def newResource (st : CloudState) (op : CloudOperation) : CloudResource where
  id := op.newId st.sequence
  cloud := op.cloud
  service := op.service
  resourceType := op.resourceType
  name := op.name
  scope := op.scope
  region := op.region
  properties := op.properties
  dependsOn := op.dependsOn
  lifecycle := "ACTIVE"
  createdAt := st.logicalClock
  updatedAt := st.logicalClock
  visibleAt := st.logicalClock + op.visibilityDelay
  visible := op.visibilityDelay = 0

/-- `_create`. -/
def create (op : CloudOperation) : CloudM CloudReply := do
  let m ← get
  let resource := newResource m.state op
  let missing := op.dependsOn.filter (!m.state.resourceExists ·)
  if (m.state.resources op.cloud).any (·.id = resource.id) then
    throw ⟨"ValueError", "resource already exists: " ++ resource.id⟩
  else if missing ≠ [] then
    throw ⟨"ValueError", "missing dependencies: " ++ ",".intercalate (missing.insertionSort (· ≤ ·))⟩
  else if quotaExceeded m op then
    throw ⟨"RuntimeError", "quota exceeded: " ++ quotaKey op.cloud op.service op.resourceType⟩
  else do
    modify fun m => { m with state := m.state.addResource op.cloud resource }
    answer op (.resource resource)

/-- A change of an existing resource, stamped with the clock. -/
def changeResource (op : CloudOperation) (r : CloudResource) (f : CloudResource → CloudResource) :
    CloudM CloudReply := do
  let m ← get
  let stamped r : CloudResource := { f r with updatedAt := m.state.logicalClock }
  let change c r' := if c = op.cloud ∧ r'.id = r.id then stamped r' else r'
  modify fun m => { m with state := m.state.mapResources change }
  answer op (.resource (stamped r))

/-- `_update`. -/
def update (op : CloudOperation) : CloudM CloudReply := do
  let r ← requireResource op
  changeResource op r fun r => { r with properties := r.properties.update op.properties }

/-- `_delete`. -/
def delete (op : CloudOperation) : CloudM CloudReply := do
  let r ← requireResource op
  let m ← get
  let dependents := m.state.dependents r.id
  if dependents ≠ [] then
    throw ⟨"ValueError", "resource has active dependents: " ++
      ",".intercalate (dependents.insertionSort (· ≤ ·))⟩
  else do
    modify fun m => { m with state := m.state.removeResource op.cloud r.id }
    answer op (.deleted r.id)

/-- The binding that `_bind` records, or why it raises. -/
def newBinding (st : CloudState) (op : CloudOperation) : Except PyError Binding :=
  match op.source with
  | .str source =>
    if st.resourceExists source = false then
      valueError "binding source must reference an existing resource"
    else
      match asText op.target, asText op.relation with
      | none, _ => valueError "binding target must be a non-empty string"
      | some _, none => valueError "binding relation must be a non-empty string"
      | some target, some relation => return ⟨source, target, relation⟩
  | _ => valueError "binding source must reference an existing resource"

/-- `_bind`. -/
def bind (op : CloudOperation) : CloudM CloudReply := do
  let m ← get
  match newBinding m.state op with
  | .error e => throw e
  | .ok binding => do
    if binding ∈ m.state.bindings op.cloud then answer op (.binding binding)
    else do
      let bindings := m.state.bindings op.cloud ++ [binding]
      modify fun m => { m with state := m.state.setBindings op.cloud bindings }
      answer op (.binding binding)

/-- `_unbind`. -/
def unbind (op : CloudOperation) : CloudM CloudReply := do
  let m ← get
  let kept := (m.state.bindings op.cloud).filter fun b =>
    ¬ (Value.str b.source = op.source ∧ Value.str b.target = op.target ∧
      Value.str b.relation = op.relation)
  modify fun m => { m with state := m.state.setBindings op.cloud kept }
  answer op (.removed ((m.state.bindings op.cloud).length - kept.length))

/-- `_transition`. -/
def transition (op : CloudOperation) : CloudM CloudReply := do
  let r ← requireResource op
  match asText ((op.properties.lookup "lifecycle").getD .null) with
  | none => throw ⟨"ValueError", "TRANSITION requires properties.lifecycle"⟩
  | some lifecycle => changeResource op r fun r => { r with lifecycle }

/-- `_invoke`. -/
def invoke (op : CloudOperation) : CloudM CloudReply :=
  answer op (.invocation op.scope op.region op.properties)

/-- What `apply` does inside its `try`. -/
def applyEffect (op : CloudOperation) : CloudM CloudReply := do
  modify fun m => { m with state := m.state.counted }
  match op.effect with
  | .create => create op
  | .update => update op
  | .delete => delete op
  | .bind => bind op
  | .unbind => unbind op
  | .transition => transition op
  | .invoke => invoke op

/-- `CloudStateMachine.apply`. -/
def apply (op : CloudOperation) : CloudM CloudReply := do
  validateLocation op
  maybeFail op
  let before ← get
  match ← Fallible.attempt (applyEffect op) with
  | .ok reply => return reply
  | .error e => do
    modify fun m => { m with state := before.state }
    throw e

/-- `CloudStateMachine.advance_clock`. -/
def advanceClock (ticks : Value) : CloudM CloudReply :=
  match ticks with
  | .int n =>
    if n ≤ 0 then throw ⟨"ValueError", "payload.ticks must be a positive integer"⟩
    else do
      modify fun m => { m with state := m.state.advanced n.toNat }
      let e ← event "cloudsim" "clock" "advance" (.advance n.toNat)
      return (.advance n.toNat, e)
  | _ => throw ⟨"ValueError", "payload.ticks must be a positive integer"⟩

/-- A call : `apply` of the operation of a payload, or `advance_clock`. -/
inductive Request
  | apply (cloud : Cloud) (payload : Payload)
  | advanceClock (ticks : Value)

def Request.program (tables : TextTables) : Request → CloudM CloudReply
  | .apply cloud payload =>
    match CloudOperation.fromPayload tables payload cloud with
    | .error e => throw e
    | .ok op => CloudSim.apply op
  | .advanceClock ticks => CloudSim.advanceClock ticks

/-- One call. It always ends (`wp_program`). -/
def stepCloud (tables : TextTables) (m : Machine) (request : Request) :
    Except PyError CloudReply × Machine :=
  ((request.program tables) m).getD (.error ⟨"", ""⟩, m)

/-! ## What a call does -/

section Calls

variable {tables : TextTables} {m : Machine} {op : CloudOperation}

/-- An operation in the topology, with no fault left for it. -/
def Accepted (m : Machine) (op : CloudOperation) : Prop :=
  op.scope ∈ (m.state.topology op.cloud).scopes ∧ op.region ∈ (m.state.topology op.cloud).regions ∧
    (m.faults.lookup (faultKey op)).getD 0 = 0

/-- An operation that creates a resource. -/
structure Creates (m : Machine) (op : CloudOperation) : Prop where
  accepted : Accepted m op
  effect : op.effect = .create
  fresh : ∀ r ∈ m.state.resources op.cloud, r.id ≠ op.newId (m.state.sequence + 1)
  dependencies : ∀ id ∈ op.dependsOn, m.state.resourceExists id
  quota : quotaExceeded m op = false

/-- An operation that deletes the resource under an id. -/
structure Deletes (m : Machine) (op : CloudOperation) (id : String) : Prop where
  accepted : Accepted m op
  effect : op.effect = .delete
  named : op.namedId = some id
  exists_resource : ∃ r, m.state.find op.cloud id = some r
  dependents : m.state.dependents id = []

/-- A change that touches neither identity nor dependencies nor visibility. -/
structure Keeps (r r' : CloudResource) : Prop where
  id : r'.id = r.id
  cloud : r'.cloud = r.cloud
  service : r'.service = r.service
  resourceType : r'.resourceType = r.resourceType
  dependsOn : r'.dependsOn = r.dependsOn

/-- The states, up to the event, in which operations that succeed leave a machine. -/
inductive Changed (m : Machine) (op : CloudOperation) : CloudState → Prop
  | created (h : Creates m op) : Changed m op
      (m.state.counted.addResource op.cloud (newResource m.state.counted op))
  | changed (g : Cloud → CloudResource → CloudResource) (hkeeps : ∀ c r, Keeps r (g c r))
      (hvisible : ∀ c r, (g c r).visibleAt = r.visibleAt ∧ (g c r).visible = r.visible) :
      Changed m op (m.state.counted.mapResources g)
  | deleted (id : String) (h : Deletes m op id) :
      Changed m op (m.state.counted.removeResource op.cloud id)
  | rebound (bindings : List Binding) (h : ∀ b ∈ bindings,
      b ∈ m.state.bindings op.cloud ∨ m.state.resourceExists b.source = true) :
      Changed m op (m.state.counted.setBindings op.cloud bindings)
  | same : Changed m op m.state.counted

/-- The machines in which operations that succeed end. -/
def Ended (m : Machine) (op : CloudOperation) (m' : Machine) : Prop :=
  ∃ st e, Changed m op st ∧ e.sequence = st.events.length + 1 ∧
    m' = { m with state := st.logged e }

/-- A program that ends so, or raises with the quotas as they were. -/
def Ends (m : Machine) (op : CloudOperation) (p : CloudM CloudReply) (s : Machine) : Prop :=
  Fallible.wp p (fun _ m' => Ended m op m') (fun _ m' => m'.quotas = m.quotas) False s

/-- The machine in which an operation runs. -/
def Machine.counted (m : Machine) : Machine := { m with state := m.state.counted }

theorem ends_answer {st : CloudState} {detail : EventDetail} (h : Changed m op st) :
    Ends m op (answer op detail) { m with state := st } := by
  simp only [Ends, answer, event, Fallible.wp_bind, Fallible.wp_get, Fallible.wp_modify,
    Fallible.wp_pure]
  exact ⟨st, _, h, rfl, rfl⟩

theorem ends_create (haccepted : Accepted m op) (heffect : op.effect = .create) :
    Ends m op (create op) m.counted := by
  rw [Ends, create, Fallible.wp_bind, Fallible.wp_get]
  dsimp only
  split
  · exact rfl
  · next hfresh =>
    split
    · exact rfl
    · next hmissing =>
      split
      · exact rfl
      · next hquota =>
        rw [Fallible.wp_bind, Fallible.wp_modify]
        refine ends_answer (.created ⟨haccepted, heffect, fun r hr hid => hfresh ?_, fun id hid => ?_,
          Bool.eq_false_of_not_eq_true hquota⟩)
        · exact List.any_eq_true.mpr ⟨r, hr, decide_eq_true hid⟩
        · have hnone := List.filter_eq_nil_iff.mp (not_not.mp hmissing) id hid
          exact Bool.of_not_eq_false fun hfalse => hnone (congrArg not hfalse)

theorem wp_requireResource : Fallible.wp (requireResource op) (fun r m' => m' = m ∧
    op.namedId = some r.id ∧ m.state.find op.cloud r.id = some r) (fun _ m' => m'.quotas = m.quotas) False m := by
  rw [requireResource, Fallible.wp_bind, Fallible.wp_get]
  split
  · exact rfl
  · next id hid =>
    split
    · exact rfl
    · next r hr =>
      obtain rfl : r.id = id := by simpa using List.find?_some hr
      exact ⟨rfl, hid, hr⟩

theorem ends_changeResource {r : CloudResource} {f : CloudResource → CloudResource}
    (hkeeps : ∀ r, Keeps r (f r)) (hvisible : ∀ r, (f r).visibleAt = r.visibleAt ∧
      (f r).visible = r.visible) :
    Ends m op (changeResource op r f) m.counted := by
  rw [Ends, changeResource, Fallible.wp_bind, Fallible.wp_get, Fallible.wp_bind, Fallible.wp_modify]
  refine ends_answer (.changed _ (fun c r' => ?_) fun c r' => ?_)
  · split
    · exact ⟨(hkeeps r').1, (hkeeps r').2, (hkeeps r').3, (hkeeps r').4, (hkeeps r').5⟩
    · exact ⟨rfl, rfl, rfl, rfl, rfl⟩
  · split
    · exact hvisible r'
    · exact ⟨rfl, rfl⟩

theorem ends_update : Ends m op (update op) m.counted := by
  rw [Ends, update, Fallible.wp_bind]
  refine Fallible.wp_mono wp_requireResource (fun r m' hr => ?_) fun _ _ => id
  rw [hr.1]
  exact ends_changeResource (fun _ => ⟨rfl, rfl, rfl, rfl, rfl⟩) fun _ => ⟨rfl, rfl⟩

theorem ends_transition : Ends m op (transition op) m.counted := by
  rw [Ends, transition, Fallible.wp_bind]
  refine Fallible.wp_mono wp_requireResource (fun r m' hr => ?_) fun _ _ => id
  rw [hr.1]
  split
  · exact rfl
  · exact ends_changeResource (fun _ => ⟨rfl, rfl, rfl, rfl, rfl⟩) fun _ => ⟨rfl, rfl⟩

theorem ends_delete (haccepted : Accepted m op) (heffect : op.effect = .delete) :
    Ends m op (delete op) m.counted := by
  rw [Ends, delete, Fallible.wp_bind]
  refine Fallible.wp_mono wp_requireResource (fun r m' hr => ?_) fun _ _ => id
  obtain ⟨rfl, hnamed, hfind⟩ := hr
  rw [Fallible.wp_bind, Fallible.wp_get]
  dsimp only
  split
  · exact rfl
  · next hdependents =>
    rw [Fallible.wp_bind, Fallible.wp_modify]
    exact ends_answer (.deleted r.id ⟨haccepted, heffect, hnamed, ⟨r, hfind⟩, not_not.mp hdependents⟩)

/-- A new binding is of an existing resource. -/
theorem newBinding_eq_ok {st : CloudState} {b : Binding} (h : newBinding st op = .ok b) :
    st.resourceExists b.source = true := by
  unfold newBinding at h
  split at h
  · split at h
    · cases h
    · next hexists =>
      split at h
      · cases h
      · cases h
      · obtain rfl := Except.ok.inj h
        exact Bool.eq_true_of_not_eq_false hexists
  · cases h

theorem ends_cloudBind : Ends m op (bind op) m.counted := by
  rw [Ends, bind, Fallible.wp_bind, Fallible.wp_get]
  split
  · exact rfl
  · next b hb =>
    split
    · exact ends_answer .same
    · rw [Fallible.wp_bind, Fallible.wp_modify]
      refine ends_answer (.rebound _ fun b' hb' => ?_)
      rcases List.mem_append.mp hb' with hb' | hb'
      · exact Or.inl hb'
      · obtain rfl := List.mem_singleton.mp hb'
        exact Or.inr (newBinding_eq_ok hb)

theorem ends_unbind : Ends m op (unbind op) m.counted := by
  rw [Ends, unbind, Fallible.wp_bind, Fallible.wp_get, Fallible.wp_bind, Fallible.wp_modify]
  exact ends_answer (.rebound _ fun b hb => Or.inl (List.mem_filter.mp hb).1)

theorem ends_applyEffect (haccepted : Accepted m op) : Ends m op (applyEffect op) m := by
  rw [Ends, applyEffect, Fallible.wp_bind, Fallible.wp_modify]
  split
  · next heffect => exact ends_create haccepted heffect
  · exact ends_update
  · next heffect => exact ends_delete haccepted heffect
  · exact ends_cloudBind
  · exact ends_unbind
  · exact ends_transition
  · exact ends_answer .same

theorem wp_validateLocation : Fallible.wp (validateLocation op) (fun _ m' => m' = m ∧
      op.scope ∈ (m.state.topology op.cloud).scopes ∧
      op.region ∈ (m.state.topology op.cloud).regions)
    (fun _ m' => m' = m) False m := by
  rw [validateLocation, Fallible.wp_bind, Fallible.wp_get]
  split
  · exact rfl
  · next hscope =>
    split
    · exact rfl
    · next hregion => exact ⟨rfl, not_not.mp hscope, not_not.mp hregion⟩

theorem wp_maybeFail : Fallible.wp (maybeFail op) (fun _ m' => m' = m ∧
      (m.faults.lookup (faultKey op)).getD 0 = 0)
    (fun _ m' => m'.state = m.state ∧ m'.quotas = m.quotas) False m := by
  rw [maybeFail, Fallible.wp_bind, Fallible.wp_get]
  dsimp only
  split
  · next hnone => exact ⟨rfl, hnone⟩
  · exact ⟨rfl, rfl⟩

/-- An operation succeeds with a change and its event, or raises and leaves the state. -/
theorem wp_apply : Fallible.wp (apply op) (fun _ m' => Ended m op m')
    (fun _ m' => m'.state = m.state ∧ m'.quotas = m.quotas) False m := by
  rw [apply, Fallible.wp_bind]
  refine Fallible.wp_mono wp_validateLocation (fun _ m' hm' => ?_) (fun _ m' hm' => hm' ▸ ⟨rfl, rfl⟩)
  obtain ⟨rfl, hscope, hregion⟩ := hm'
  rw [Fallible.wp_bind]
  refine Fallible.wp_mono wp_maybeFail (fun _ m'' hm'' => ?_) fun _ _ => id
  obtain ⟨rfl, hfaults⟩ := hm''
  rw [Fallible.wp_bind, Fallible.wp_get, Fallible.wp_bind, Fallible.wp_attempt]
  refine Fallible.wp_mono (ends_applyEffect ⟨hscope, hregion, hfaults⟩) (fun _ _ => id)
    fun e m' hquotas => ?_
  exact ⟨rfl, hquotas⟩

end Calls

/-! ## Integrity -/

namespace CloudState

variable (st : CloudState)

/-- A live resource depends on an id. -/
def DependsOn (id id' : String) : Prop := ∃ c, ∃ r ∈ st.resources c, r.id = id ∧ id' ∈ r.dependsOn

/-- A resource under an id is live. -/
def Live (id : String) : Prop := ∃ c, ∃ r ∈ st.resources c, r.id = id

/-- The resources of a service and type, as `_check_quota` counts them. -/
def serviceCount (cloud : Cloud) (service resourceType : String) : ℕ :=
  (st.resources cloud).countP fun r => r.service = service ∧ r.resourceType = resourceType

/-- The resources under a quota key. -/
def keyCount (key : String) : ℕ :=
  (clouds.map fun c =>
    (st.resources c).countP fun r => quotaKey c r.service r.resourceType = key).sum

end CloudState

/-- What the clouds refer to is there, in order and within its quotas. -/
structure Integrity (quotas : List (String × ℕ)) (st : CloudState) : Prop where
  cloud : ∀ c, ∀ r ∈ st.resources c, r.cloud = c
  nodup : ∀ c, ((st.resources c).map (·.id)).Nodup
  one_cloud : ∀ c c' r r', r ∈ st.resources c → r' ∈ st.resources c' → r.id = r'.id → c = c'
  dependencies : ∀ c, ∀ r ∈ st.resources c, ∀ id ∈ r.dependsOn, st.Live id
  acyclic : Dependence.Acyclic st.DependsOn
  sources : ∀ c, ∀ b ∈ st.bindings c, st.Live b.source
  quotas : ∀ c service resourceType limit,
    quotas.lookup (quotaKey c service resourceType) = some limit →
      st.serviceCount c service resourceType ≤ limit
  visible : ∀ c, ∀ r ∈ st.resources c, (r.visible = true ↔ r.visibleAt ≤ st.logicalClock)
  events : st.events.map (·.sequence) = List.range' 1 st.events.length

section Integrity

variable {quotas : List (String × ℕ)} {st : CloudState}

theorem resourceExists_iff {id : String} : st.resourceExists id = true ↔ st.Live id := by
  simp only [CloudState.resourceExists, List.any_eq_true, decide_eq_true_eq, CloudState.Live]
  exact exists_congr fun c => and_iff_right (mem_clouds c)

theorem resources_addResource_self {c : Cloud} {x : CloudResource} :
    (st.addResource c x).resources c = st.resources c ++ [x] := Function.update_self ..

theorem resources_addResource_of_ne {cloud c : Cloud} {x : CloudResource} (h : c ≠ cloud) :
    (st.addResource cloud x).resources c = st.resources c := Function.update_of_ne h ..

theorem resources_removeResource_self {c : Cloud} {id : String} :
    (st.removeResource c id).resources c = (st.resources c).filter (·.id ≠ id) :=
  Function.update_self ..

theorem resources_removeResource_of_ne {cloud c : Cloud} {id : String} (h : c ≠ cloud) :
    (st.removeResource cloud id).resources c = st.resources c := Function.update_of_ne h ..

theorem resources_removeResource_sublist {cloud c : Cloud} {id : String} :
    ((st.removeResource cloud id).resources c).Sublist (st.resources c) := by
  by_cases h : c = cloud
  · subst h
    rw [resources_removeResource_self]
    exact List.filter_sublist
  · rw [resources_removeResource_of_ne h]

theorem mem_addResource {cloud c : Cloud} {x r : CloudResource} :
    r ∈ (st.addResource cloud x).resources c ↔ r ∈ st.resources c ∨ c = cloud ∧ r = x := by
  by_cases h : c = cloud
  · subst h
    simp [resources_addResource_self]
  · simp [resources_addResource_of_ne h, h]

theorem mem_mapResources {g : Cloud → CloudResource → CloudResource} {c : Cloud}
    {r : CloudResource} :
    r ∈ (st.mapResources g).resources c ↔ ∃ r₀ ∈ st.resources c, g c r₀ = r :=
  List.mem_map

theorem mem_removeResource {cloud c : Cloud} {id : String} {r : CloudResource} :
    r ∈ (st.removeResource cloud id).resources c ↔
      r ∈ st.resources c ∧ (c = cloud → r.id ≠ id) := by
  by_cases h : c = cloud
  · subst h
    simp [resources_removeResource_self]
  · simp [resources_removeResource_of_ne h, h]

theorem mem_bindings_removeResource {cloud c : Cloud} {id : String} {b : Binding} :
    b ∈ (st.removeResource cloud id).bindings c ↔
      b ∈ st.bindings c ∧ (c = cloud → b.source ≠ id ∧ b.target ≠ id) := by
  unfold CloudState.removeResource CloudState.setBindings
  by_cases h : c = cloud
  · subst h
    simp
  · simp [h]

theorem mem_setBindings {cloud c : Cloud} {bindings : List Binding} {b : Binding} :
    b ∈ (st.setBindings cloud bindings).bindings c ↔
      (c = cloud ∧ b ∈ bindings) ∨ (c ≠ cloud ∧ b ∈ st.bindings c) := by
  unfold CloudState.setBindings
  by_cases h : c = cloud
  · subst h
    simp
  · simp [h]

/-- `_dependents` finds whatever depends on an id. -/
theorem dependents_eq_nil {id : String} (h : st.dependents id = []) : ∀ a, ¬ st.DependsOn a id := by
  rintro a ⟨c, r, hr, -, hid⟩
  have hnone := List.map_eq_nil_iff.mp (List.flatMap_eq_nil_iff.mp h c (mem_clouds c))
  exact List.filter_eq_nil_iff.mp hnone r hr (decide_eq_true hid)

/-! ### Counts -/

theorem countP_addResource {cloud c : Cloud} {x : CloudResource} (p : CloudResource → Bool) :
    ((st.addResource cloud x).resources c).countP p =
      (st.resources c).countP p + if c = cloud ∧ p x then 1 else 0 := by
  by_cases h : c = cloud
  · subst h
    simp [resources_addResource_self, List.countP_append, List.countP_singleton]
  · simp [resources_addResource_of_ne h, h]

theorem countP_mapResources {g : Cloud → CloudResource → CloudResource} {c : Cloud}
    {p : CloudResource → Bool} (hp : ∀ r, p (g c r) = p r) :
    ((st.mapResources g).resources c).countP p = (st.resources c).countP p := by
  rw [CloudState.mapResources, List.countP_map]
  exact List.countP_congr fun r _ => by rw [Function.comp_apply, hp]

theorem countP_removeResource {cloud c : Cloud} {id : String} (p : CloudResource → Bool) :
    ((st.removeResource cloud id).resources c).countP p ≤ (st.resources c).countP p :=
  resources_removeResource_sublist.countP_le

theorem quotaCount_eq {op : CloudOperation} :
    quotaCount st op = st.serviceCount op.cloud op.service op.resourceType :=
  List.countP_eq_length_filter.symm

/-! ### Steps -/

theorem Integrity.counted (h : Integrity quotas st) : Integrity quotas st.counted :=
  { h with }

theorem Integrity.logged (h : Integrity quotas st) {e : CloudEvent}
    (he : e.sequence = st.events.length + 1) : Integrity quotas (st.logged e) where
  __ := h
  events := by
    rw [CloudState.logged, List.map_append, h.events, List.length_append, List.map_singleton,
      List.length_singleton, List.range'_concat, he, Nat.one_mul, Nat.add_comm 1]

/-- A new resource under an id that is live nowhere, which depends on live ones. -/
theorem Integrity.addResource (h : Integrity quotas st) {c : Cloud} {x : CloudResource}
    (hcloud : x.cloud = c) (hfresh : ¬ st.Live x.id) (hdeps : ∀ id ∈ x.dependsOn, st.Live id)
    (hquota : ∀ limit, quotas.lookup (quotaKey c x.service x.resourceType) = some limit →
      st.serviceCount c x.service x.resourceType < limit)
    (hvisible : x.visible = true ↔ x.visibleAt ≤ st.logicalClock) :
    Integrity quotas (st.addResource c x) := by
  have hlive {id : String} (hid : st.Live id) : (st.addResource c x).Live id := by
    obtain ⟨c', r, hr, hrid⟩ := hid
    exact ⟨c', r, mem_addResource.mpr (Or.inl hr), hrid⟩
  constructor
  case cloud =>
    intro c' r hr
    rcases mem_addResource.mp hr with hr | ⟨rfl, rfl⟩
    · exact h.cloud c' r hr
    · exact hcloud
  case nodup =>
    intro c'
    by_cases hc : c' = c
    · subst hc
      rw [resources_addResource_self, List.map_append, List.map_singleton, List.nodup_append]
      refine ⟨h.nodup c', List.nodup_singleton _, fun a ha b hb => ?_⟩
      obtain ⟨r, hr, rfl⟩ := List.mem_map.mp ha
      obtain rfl := List.mem_singleton.mp hb
      exact fun heq => hfresh ⟨c', r, hr, heq⟩
    · rw [resources_addResource_of_ne hc]
      exact h.nodup c'
  case one_cloud =>
    intro c₁ c₂ r₁ r₂ hr₁ hr₂ hid
    rcases mem_addResource.mp hr₁ with hold₁ | ⟨rfl, rfl⟩ <;>
      rcases mem_addResource.mp hr₂ with hold₂ | ⟨rfl, rfl⟩
    · exact h.one_cloud c₁ c₂ r₁ r₂ hold₁ hold₂ hid
    · exact absurd ⟨c₁, r₁, hold₁, hid⟩ hfresh
    · exact absurd ⟨c₂, r₂, hold₂, hid.symm⟩ hfresh
    · rfl
  case dependencies =>
    intro c' r hr id hid
    rcases mem_addResource.mp hr with hr | ⟨rfl, rfl⟩
    · exact hlive (h.dependencies c' r hr id hid)
    · exact hlive (hdeps id hid)
  case acyclic =>
    refine h.acyclic.insert (n := x.id) ?_ ?_
    · rintro a b ⟨c', r, hr, rfl, hb⟩ hne
      rcases mem_addResource.mp hr with hr | ⟨rfl, rfl⟩
      · exact ⟨c', r, hr, rfl, hb⟩
      · exact absurd rfl hne
    · -- whatever depends on the new id would have found it live before
      rintro a ⟨c', r, hr, -, hid⟩
      rcases mem_addResource.mp hr with hr | ⟨rfl, rfl⟩
      · exact hfresh (h.dependencies c' r hr _ hid)
      · exact hfresh (hdeps _ hid)
  case sources => exact fun c' b hb => hlive (h.sources c' b hb)
  case quotas =>
    intro c' service resourceType limit hlimit
    rw [CloudState.serviceCount, countP_addResource]
    split
    · next hx =>
      obtain ⟨rfl, hx⟩ := hx
      obtain ⟨rfl, rfl⟩ := of_decide_eq_true hx
      exact hquota limit hlimit
    · exact h.quotas c' service resourceType limit hlimit
  case visible =>
    intro c' r hr
    rcases mem_addResource.mp hr with hr | ⟨rfl, rfl⟩
    · exact h.visible c' r hr
    · exact hvisible
  case events => exact h.events

/-- Changes, also of the clock, that keep what identifies resources and what they depend on. -/
theorem Integrity.mapResources (h : Integrity quotas st) {g : Cloud → CloudResource → CloudResource}
    {clock : ℕ} (hkeeps : ∀ c r, Keeps r (g c r))
    (hvisible : ∀ c, ∀ r ∈ st.resources c,
      ((g c r).visible = true ↔ (g c r).visibleAt ≤ clock)) :
    Integrity quotas ({ st with logicalClock := clock }.mapResources g) := by
  have hlive {id : String} (hid : st.Live id) :
      CloudState.Live ({ st with logicalClock := clock }.mapResources g) id := by
    obtain ⟨c, r, hr, hrid⟩ := hid
    exact ⟨c, g c r, mem_mapResources.mpr ⟨r, hr, rfl⟩, (hkeeps c r).id.trans hrid⟩
  constructor
  case cloud =>
    intro c r hr
    obtain ⟨r₀, hr₀, rfl⟩ := mem_mapResources.mp hr
    exact (hkeeps c r₀).cloud.trans (h.cloud c r₀ hr₀)
  case nodup =>
    intro c
    have hids : ((st.resources c).map (g c)).map (·.id) = (st.resources c).map (·.id) := by
      rw [List.map_map]
      exact List.map_congr_left fun r _ => (hkeeps c r).id
    exact hids ▸ h.nodup c
  case one_cloud =>
    intro c c' r r' hr hr' hid
    obtain ⟨r₀, hr₀, rfl⟩ := mem_mapResources.mp hr
    obtain ⟨r₁, hr₁, rfl⟩ := mem_mapResources.mp hr'
    rw [(hkeeps c r₀).id, (hkeeps c' r₁).id] at hid
    exact h.one_cloud c c' r₀ r₁ hr₀ hr₁ hid
  case dependencies =>
    intro c r hr id hid
    obtain ⟨r₀, hr₀, rfl⟩ := mem_mapResources.mp hr
    rw [(hkeeps c r₀).dependsOn] at hid
    exact hlive (h.dependencies c r₀ hr₀ id hid)
  case acyclic =>
    refine h.acyclic.mono ?_
    rintro a b ⟨c, r, hr, rfl, hb⟩
    obtain ⟨r₀, hr₀, rfl⟩ := mem_mapResources.mp hr
    rw [(hkeeps c r₀).dependsOn] at hb
    exact ⟨c, r₀, hr₀, (hkeeps c r₀).id.symm, hb⟩
  case sources => exact fun c b hb => hlive (h.sources c b hb)
  case quotas =>
    intro c service resourceType limit hlimit
    have hcount : CloudState.serviceCount (CloudState.mapResources
        { st with logicalClock := clock } g) c service resourceType =
        st.serviceCount c service resourceType :=
      countP_mapResources fun r => by rw [(hkeeps c r).service, (hkeeps c r).resourceType]
    exact hcount.trans_le (h.quotas c service resourceType limit hlimit)
  case visible =>
    intro c r hr
    obtain ⟨r₀, hr₀, rfl⟩ := mem_mapResources.mp hr
    exact hvisible c r₀ hr₀
  case events => exact h.events

/-- A deletion of an id that nothing depends on, and that no other cloud binds. -/
theorem Integrity.removeResource (h : Integrity quotas st) {c : Cloud} {id : String}
    (hdependents : st.dependents id = [])
    (hconfined : ∀ c', c' ≠ c → ∀ b ∈ st.bindings c', b.source ≠ id) :
    Integrity quotas (st.removeResource c id) := by
  have hold {c' : Cloud} {r : CloudResource} (hr : r ∈ (st.removeResource c id).resources c') :
      r ∈ st.resources c' := (mem_removeResource.mp hr).1
  have hlive {id' : String} (hid : st.Live id') (hne : id' ≠ id) :
      (st.removeResource c id).Live id' := by
    obtain ⟨c', r, hr, rfl⟩ := hid
    exact ⟨c', r, mem_removeResource.mpr ⟨hr, fun _ => hne⟩, rfl⟩
  constructor
  case cloud => exact fun c' r hr => h.cloud c' r (hold hr)
  case nodup =>
    intro c'
    exact (h.nodup c').sublist (resources_removeResource_sublist.map _)
  case one_cloud => exact fun c₁ c₂ r₁ r₂ hr₁ hr₂ => h.one_cloud c₁ c₂ r₁ r₂ (hold hr₁) (hold hr₂)
  case dependencies =>
    intro c' r hr id' hid
    refine hlive (h.dependencies c' r (hold hr) id' hid) ?_
    rintro rfl
    exact dependents_eq_nil hdependents r.id ⟨c', r, hold hr, rfl, hid⟩
  case acyclic =>
    refine h.acyclic.mono ?_
    rintro a b ⟨c', r, hr, hra, hb⟩
    exact ⟨c', r, hold hr, hra, hb⟩
  case sources =>
    intro c' b hb
    obtain ⟨hb, hown⟩ := mem_bindings_removeResource.mp hb
    refine hlive (h.sources c' b hb) ?_
    by_cases hc : c' = c
    · exact (hown hc).1
    · exact hconfined c' hc b hb
  case quotas =>
    exact fun c' service resourceType limit hlimit =>
      (countP_removeResource _).trans (h.quotas c' service resourceType limit hlimit)
  case visible => exact fun c' r hr => h.visible c' r (hold hr)
  case events => exact h.events

/-- Bindings of live sources. -/
theorem Integrity.setBindings (h : Integrity quotas st) {c : Cloud} {bindings : List Binding}
    (hlive : ∀ b ∈ bindings, b ∈ st.bindings c ∨ st.resourceExists b.source = true) :
    Integrity quotas (st.setBindings c bindings) where
  __ := h
  sources := by
    intro c' b hb
    rcases mem_setBindings.mp hb with ⟨rfl, hmem⟩ | ⟨-, hmem⟩
    · rcases hlive b hmem with hold | hexists
      · exact h.sources c' b hold
      · exact resourceExists_iff.mp hexists
    · exact h.sources c' b hmem

end Integrity

/-! ### Calls -/

/-- A creation is under an id that no other cloud has, and a deletion of one that no other cloud
binds. -/
structure Confined (m : Machine) (op : CloudOperation) : Prop where
  creates : Creates m op → ∀ c, c ≠ op.cloud → ∀ r ∈ m.state.resources c,
    r.id ≠ op.newId (m.state.sequence + 1)
  deletes : ∀ id, Deletes m op id → ∀ c, c ≠ op.cloud → ∀ b ∈ m.state.bindings c, b.source ≠ id

/-- A creation finds room under its quota key, whatever the key stands for. -/
def Roomy (m : Machine) (op : CloudOperation) : Prop :=
  Creates m op → ∀ limit, m.quotas.lookup (quotaKey op.cloud op.service op.resourceType) = some limit →
    m.state.keyCount (quotaKey op.cloud op.service op.resourceType) < limit

/-- A condition on the operation of a call, if it has one. -/
def Request.Meets (tables : TextTables) (P : Machine → CloudOperation → Prop) (m : Machine) :
    Request → Prop
  | .apply cloud payload => ∀ op, CloudOperation.fromPayload tables payload cloud = .ok op → P m op
  | .advanceClock _ => True

/-- No quota key has more resources than its limit. -/
def KeyQuotas (quotas : List (String × ℕ)) (st : CloudState) : Prop :=
  ∀ key limit, quotas.lookup key = some limit → st.keyCount key ≤ limit

section Calls

variable {m : Machine} {op : CloudOperation} {st : CloudState}

theorem Changed.integrity (h : Changed m op st) (hm : Integrity m.quotas m.state)
    (hconfined : Confined m op) : Integrity m.quotas st := by
  cases h with
  | created h =>
    refine hm.counted.addResource rfl ?_ (fun id hid => ?_) (fun limit hlimit => ?_) ?_
    · rintro ⟨c, r, hr, hid⟩
      by_cases hc : c = op.cloud
      · subst hc
        exact h.fresh r hr hid
      · exact hconfined.creates h c hc r hr hid
    · exact resourceExists_iff.mp (h.dependencies id hid)
    · have hquota := h.quota
      rw [quotaExceeded, show m.quotas.lookup (quotaKey op.cloud op.service op.resourceType) =
        some limit from hlimit, quotaCount_eq] at hquota
      exact Nat.lt_of_not_le (of_decide_eq_false hquota)
    · change decide (op.visibilityDelay = 0) = true ↔ _ + op.visibilityDelay ≤ _
      rw [decide_eq_true_iff]
      omega
  | changed g hkeeps hvisible =>
    refine hm.counted.mapResources hkeeps fun c r hr => ?_
    rw [(hvisible c r).1, (hvisible c r).2]
    exact hm.visible c r hr
  | deleted id h => exact hm.counted.removeResource h.dependents (hconfined.deletes id h)
  | rebound bindings h => exact hm.counted.setBindings h
  | same => exact hm.counted

/-- The clock makes visible what is due. -/
theorem Integrity.advanced {quotas : List (String × ℕ)} (h : Integrity quotas st) (ticks : ℕ) :
    Integrity quotas (st.advanced ticks) :=
  h.mapResources (fun _ _ => ⟨rfl, rfl, rfl, rfl, rfl⟩) fun _ _ _ => decide_eq_true_iff

theorem keyCount_addResource {cloud : Cloud} {x : CloudResource} {key : String} :
    (st.addResource cloud x).keyCount key =
      st.keyCount key + if quotaKey cloud x.service x.resourceType = key then 1 else 0 := by
  simp only [CloudState.keyCount, clouds, List.map_cons, List.map_nil, List.sum_cons, List.sum_nil,
    countP_addResource]
  cases cloud <;> simp <;> split <;> omega

theorem keyCount_mapResources {g : Cloud → CloudResource → CloudResource} {key : String}
    (hkeeps : ∀ c r, Keeps r (g c r)) : (st.mapResources g).keyCount key = st.keyCount key := by
  unfold CloudState.keyCount
  refine congrArg List.sum (List.map_congr_left fun c _ => countP_mapResources fun r => ?_)
  rw [(hkeeps c r).service, (hkeeps c r).resourceType]

theorem keyCount_removeResource {cloud : Cloud} {id key : String} :
    (st.removeResource cloud id).keyCount key ≤ st.keyCount key := by
  have hle (c : Cloud) : ((st.removeResource cloud id).resources c).countP
        (fun r => quotaKey c r.service r.resourceType = key) ≤
      (st.resources c).countP fun r => quotaKey c r.service r.resourceType = key :=
    countP_removeResource _
  have haws := hle .aws
  have hazure := hle .azure
  have hgcp := hle .gcp
  simp only [CloudState.keyCount, clouds, List.map_cons, List.map_nil, List.sum_cons, List.sum_nil]
  omega

theorem Changed.keyQuotas (h : Changed m op st) (hm : KeyQuotas m.quotas m.state)
    (hroomy : Roomy m op) : KeyQuotas m.quotas st := by
  intro key limit hlimit
  have hle := hm key limit hlimit
  cases h with
  | created h =>
    rw [keyCount_addResource]
    split
    · next hkey =>
      obtain rfl : quotaKey op.cloud op.service op.resourceType = key := hkey
      exact hroomy h limit hlimit
    · exact hle
  | changed g hkeeps _ => exact (keyCount_mapResources hkeeps).trans_le hle
  | deleted id _ => exact keyCount_removeResource.trans hle
  | rebound bindings _ => exact hle
  | same => exact hle

variable {tables : TextTables} {request : Request}

/-- The states, up to the event, in which a call that succeeds leaves a machine. -/
def Request.After (tables : TextTables) (m : Machine) (st : CloudState) : Request → Prop
  | .apply cloud payload => ∃ op, CloudOperation.fromPayload tables payload cloud = .ok op ∧
      Changed m op st
  | .advanceClock _ => ∃ ticks, st = m.state.advanced ticks

theorem wp_program (tables : TextTables) (m : Machine) (request : Request) : Fallible.wp (request.program tables)
    (fun _ m' => ∃ st e, request.After tables m st ∧ e.sequence = st.events.length + 1 ∧
      m' = { m with state := st.logged e })
    (fun _ m' => m'.state = m.state ∧ m'.quotas = m.quotas) False m := by
  cases request with
  | apply cloud payload =>
    rw [Request.program]
    split
    · exact ⟨rfl, rfl⟩
    · next op hop =>
      refine Fallible.wp_mono wp_apply (fun _ m' hended => ?_) fun _ _ => id
      obtain ⟨st, e, hchanged, he, hm'⟩ := hended
      exact ⟨st, e, ⟨op, hop, hchanged⟩, he, hm'⟩
  | advanceClock ticks =>
    cases ticks with
    | int n =>
      rw [Request.program, CloudSim.advanceClock]
      split
      · exact ⟨rfl, rfl⟩
      · simp only [event, Fallible.wp_bind, Fallible.wp_get, Fallible.wp_modify, Fallible.wp_pure]
        exact ⟨m.state.advanced n.toNat, _, ⟨n.toNat, rfl⟩, rfl, rfl⟩
    | _ => exact ⟨rfl, rfl⟩

/-- A call succeeds with a change and its event, or leaves the state and the quotas. -/
theorem stepCloud_cases (tables : TextTables) (m : Machine) (request : Request) :
    ((∃ reply, (stepCloud tables m request).1 = .ok reply) ∧
      ∃ st e, request.After tables m st ∧ e.sequence = st.events.length + 1 ∧
        (stepCloud tables m request).2 = { m with state := st.logged e }) ∨
    ((stepCloud tables m request).2.state = m.state ∧
      (stepCloud tables m request).2.quotas = m.quotas) := by
  have hwp := wp_program tables m request
  unfold Fallible.wp at hwp
  unfold stepCloud
  split at hwp
  · exact hwp.elim
  · next reply m' hrun =>
    rw [hrun]
    exact Or.inl ⟨⟨reply, rfl⟩, hwp⟩
  · next e m' hrun =>
    rw [hrun]
    exact Or.inr hwp

theorem Request.After.integrity (h : request.After tables m st) (hm : Integrity m.quotas m.state)
    (hconfined : request.Meets tables Confined m) : Integrity m.quotas st := by
  cases request with
  | apply cloud payload =>
    obtain ⟨op, hop, hchanged⟩ := h
    exact hchanged.integrity hm (hconfined op hop)
  | advanceClock ticks =>
    obtain ⟨n, rfl⟩ := h
    exact hm.advanced n

theorem Request.After.keyQuotas (h : request.After tables m st) (hm : KeyQuotas m.quotas m.state)
    (hroomy : request.Meets tables Roomy m) : KeyQuotas m.quotas st := by
  cases request with
  | apply cloud payload =>
    obtain ⟨op, hop, hchanged⟩ := h
    exact hchanged.keyQuotas hm (hroomy op hop)
  | advanceClock ticks =>
    obtain ⟨n, rfl⟩ := h
    refine fun key limit hlimit => ?_
    have hkeeps (c : Cloud) (r : CloudResource) :
        Keeps r { r with visible := r.visibleAt ≤ m.state.logicalClock + n } := ⟨rfl, rfl, rfl, rfl, rfl⟩
    exact (keyCount_mapResources hkeeps).trans_le (hm key limit hlimit)

/-- A confined call keeps the integrity of the clouds. -/
theorem integrity_step {quotas : List (String × ℕ)}
    (hm : m.quotas = quotas ∧ Integrity quotas m.state)
    (hconfined : request.Meets tables Confined m) :
    (stepCloud tables m request).2.quotas = quotas ∧
      Integrity quotas (stepCloud tables m request).2.state := by
  obtain ⟨rfl, hm⟩ := hm
  rcases stepCloud_cases tables m request with
    ⟨-, st, e, hafter, he, hm'⟩ | ⟨hstate, hquotas⟩
  · rw [hm']
    exact ⟨rfl, (hafter.integrity hm hconfined).logged he⟩
  · rw [hstate]
    exact ⟨hquotas, hm⟩

theorem keyQuotas_step {quotas : List (String × ℕ)}
    (hm : m.quotas = quotas ∧ KeyQuotas quotas m.state) (hroomy : request.Meets tables Roomy m) :
    (stepCloud tables m request).2.quotas = quotas ∧
      KeyQuotas quotas (stepCloud tables m request).2.state := by
  obtain ⟨rfl, hm⟩ := hm
  rcases stepCloud_cases tables m request with
    ⟨-, st, e, hafter, he, hm'⟩ | ⟨hstate, hquotas⟩
  · rw [hm']
    exact ⟨rfl, hafter.keyQuotas hm hroomy⟩
  · rw [hstate]
    exact ⟨hquotas, hm⟩

/-- A call that raises leaves the state. -/
theorem stepCloud_state_of_error {e : PyError} (h : (stepCloud tables m request).1 = .error e) :
    (stepCloud tables m request).2.state = m.state := by
  rcases stepCloud_cases tables m request with
    ⟨⟨reply, hreply⟩, -⟩ | ⟨hstate, -⟩
  · rw [hreply] at h
    cases h
  · exact hstate

end Calls

/-- A new machine. -/
def Machine.start (topology : Cloud → Location) (quotas faults : List (String × ℕ)) : Machine :=
  ⟨{ topology }, quotas, faults⟩

theorem integrity_start (topology : Cloud → Location) (quotas faults : List (String × ℕ)) :
    Integrity quotas (Machine.start topology quotas faults).state where
  cloud := fun _ _ => nofun
  nodup := fun _ => List.nodup_nil
  one_cloud := fun _ _ _ _ => nofun
  dependencies := fun _ _ => nofun
  acyclic := .of_rank (fun _ => 0) fun _ _ => nofun
  sources := fun _ _ => nofun
  quotas := fun _ _ _ _ _ => Nat.zero_le _
  visible := fun _ _ => nofun
  events := rfl

/-- Where every call is confined, the clouds keep their integrity; they also stay within what the
quota keys say, where creations find room under them. Calls that raise leave the state. -/
theorem cloud_integrity (tables : TextTables) (topology : Cloud → Location)
    (quotas faults : List (String × ℕ)) (requests : List Request)
    (h : ∀ t ∈ Runs.trace (stepCloud tables) (Machine.start topology quotas faults) requests,
      t.input.Meets tables Confined t.before) :
    Integrity quotas
        (Runs.run (stepCloud tables) (Machine.start topology quotas faults) requests).state ∧
      ((∀ t ∈ Runs.trace (stepCloud tables) (Machine.start topology quotas faults) requests,
        t.input.Meets tables Roomy t.before) → KeyQuotas quotas
          (Runs.run (stepCloud tables) (Machine.start topology quotas faults) requests).state) ∧
      ∀ t ∈ Runs.trace (stepCloud tables) (Machine.start topology quotas faults) requests,
        ∀ e, t.reply = .error e → t.after.state = t.before.state := by
  refine ⟨?_, fun hroomy => ?_, fun t ht e he => ?_⟩
  · exact (Runs.run_induction (P := fun m : Machine => m.quotas = quotas ∧ Integrity quotas m.state)
      (fun _ _ => integrity_step) ⟨rfl, integrity_start topology quotas faults⟩ h).2
  · exact (Runs.run_induction (P := fun m : Machine => m.quotas = quotas ∧ KeyQuotas quotas m.state)
      (fun _ _ => keyQuotas_step) ⟨rfl, fun _ _ _ => Nat.zero_le _⟩ hroomy).2
  · have heq := Runs.reply_eq_of_mem_trace ht
    rw [show t.after = _ from congrArg Prod.snd heq]
    exact stepCloud_state_of_error ((congrArg Prod.fst heq).symm.trans he)

/-! ## One queue -/

def sampleTables : TextTables := ⟨fun s => s.map Char.toUpper, fun s => "'" ++ s ++ "'"⟩

def sampleStart : Machine := .start (fun _ => ⟨["prod"], ["us-east"]⟩) [] []

/-- An operation of a queue service. -/
def sampleRequest (cloud : Cloud) (effect : String) (more : Payload) : Request :=
  .apply cloud ([("service", .str "queues"), ("operation", .str effect), ("effect", .str effect)] ++
    more)

def sampleCreate (cloud : Cloud) : Request :=
  sampleRequest cloud "create" [("resource_id", .str "jobs")]

def sampleBind (cloud : Cloud) : Request :=
  sampleRequest cloud "bind" [("properties",
    .dict [("source", .str "jobs"), ("target", .str "worker")])]

def sampleDelete (cloud : Cloud) : Request :=
  sampleRequest cloud "delete" [("resource_id", .str "jobs")]

/-- What is left to check of a call whose payload is given. -/
theorem meets_confined {tables : TextTables} {m : Machine} {cloud : Cloud} {payload : Payload}
    (h : ∀ op ∈ (CloudOperation.fromPayload tables payload cloud).toOption,
      (op.effect = .create → ∀ c ∈ clouds, c ≠ op.cloud → ∀ r ∈ m.state.resources c,
        r.id ≠ op.newId (m.state.sequence + 1)) ∧
      (op.effect = .delete → ∀ id ∈ op.namedId, ∀ c ∈ clouds, c ≠ op.cloud →
        ∀ b ∈ m.state.bindings c, b.source ≠ id)) :
    (Request.apply cloud payload).Meets tables Confined m := by
  intro op hop
  obtain ⟨hcreates, hdeletes⟩ := h op (by rw [hop]; rfl)
  exact ⟨fun hc c => hcreates hc.effect c (mem_clouds c),
    fun id hd c => hdeletes hd.effect id hd.named c (mem_clouds c)⟩

theorem cloud_integrity_sample :
    Integrity [] (Runs.run (stepCloud sampleTables) sampleStart
        [sampleCreate .aws, sampleBind .gcp, sampleDelete .gcp]).state ∧
      ∀ t ∈ Runs.trace (stepCloud sampleTables) sampleStart
          [sampleCreate .aws, sampleBind .gcp, sampleDelete .gcp],
        ∀ e, t.reply = .error e → t.after.state = t.before.state := by
  obtain ⟨hintegrity, -, herror⟩ := cloud_integrity sampleTables (fun _ => ⟨["prod"], ["us-east"]⟩)
    [] [] [sampleCreate .aws, sampleBind .gcp, sampleDelete .gcp] (by
      simp only [Runs.trace, List.forall_mem_cons]
      exact ⟨meets_confined (by decide +kernel), meets_confined (by decide +kernel),
        meets_confined (by decide +kernel), List.forall_mem_nil _⟩)
  exact ⟨hintegrity, herror⟩

/-- A deletion leaves a binding of another cloud, and two clouds have a resource of one id. -/
theorem references_lost :
    ¬ Integrity [] (Runs.run (stepCloud sampleTables) sampleStart
        [sampleCreate .aws, sampleBind .gcp, sampleDelete .aws]).state ∧
      ¬ Integrity [] (Runs.run (stepCloud sampleTables) sampleStart
        [sampleCreate .aws, sampleCreate .gcp]).state := by
  constructor
  · intro h
    have hlive := resourceExists_iff.mpr
      (h.sources .gcp ⟨"jobs", "worker", "permission"⟩ (by decide +kernel))
    revert hlive
    decide +kernel
  · intro h
    obtain ⟨r, hr, r', hr', hid⟩ : ∃ r ∈ (Runs.run (stepCloud sampleTables) sampleStart
        [sampleCreate .aws, sampleCreate .gcp]).state.resources .aws,
      ∃ r' ∈ (Runs.run (stepCloud sampleTables) sampleStart
        [sampleCreate .aws, sampleCreate .gcp]).state.resources .gcp, r.id = r'.id := by
      decide +kernel
    cases h.one_cloud .aws .gcp r r' hr hr' hid

end CloudSim

end GymAct
