import GymAct.CloudSim
import GymAct.Evidence
import GymAct.Linearization

/-!
# Classes of world objects

`world.py` : a class is created with the contracts of its affordances, those of its bases merged by
`dict.update`, and then its own. A method is looked up along the order of the class's linearization.
A class is a number in the list of all, its bases among the earlier ones.
-/

namespace GymAct

namespace World

/-! ## Affordances -/

inductive AffordanceKind
  | sense | construct | effect | proof
  deriving DecidableEq, Repr

/-- `_AffordanceMarker`, as one of the decorators makes it. -/
inductive Marker
  | sense
  | construct
  | effect (capabilityRef : String) (capabilityRef_ne : capabilityRef ≠ "")
  | proof
  deriving Repr

namespace Marker

def kind : Marker → AffordanceKind
  | sense => .sense
  | construct => .construct
  | effect .. => .effect
  | proof => .proof

def capabilityRef : Marker → Option String
  | effect capabilityRef _ => some capabilityRef
  | _ => none

/-- The kind and the capability tell the marker. -/
theorem eq_iff {a b : Marker} : a = b ↔ a.kind = b.kind ∧ a.capabilityRef = b.capabilityRef := by
  constructor
  · rintro rfl
    exact ⟨rfl, rfl⟩
  · rintro ⟨hkind, hcapability⟩
    cases a <;> cases b <;> simp_all [kind, capabilityRef]

instance : DecidableEq Marker := fun _ _ => decidable_of_iff _ eq_iff.symm

end Marker

/-- `effect(capability_ref=…)`. -/
def effect (capabilityRef : String) : Except PyError Marker :=
  if h : capabilityRef = "" then .error ⟨"ValueError", "EFFECT_CAPABILITY_REF_REQUIRED"⟩
  else .ok (.effect capabilityRef h)

@[ext]
structure EffectIntent where
  capabilityRef : String
  payload : Payload := []
  capabilityRef_ne : capabilityRef ≠ ""
  deriving Repr

instance : DecidableEq EffectIntent := fun _ _ =>
  decidable_of_iff _ EffectIntent.ext_iff.symm

/-- What a method returns, as far as `invoke` tells it apart. -/
inductive Returned
  | intent (intent : EffectIntent)
  | model (dump : Payload)
  | mapping (items : Payload)
  | other (value : Value)

/-- A parameter of a signature. -/
structure Parameter where
  name : String
  variadic : Bool := false

/-- A function in the namespace of a class. Pydantic's model of its signature is outside, and so is
its body : it is given the fields of the object and the arguments. -/
structure Member where
  marker : Option Marker := none
  parameters : List Parameter := []
  doc : Option String := none
  validate : Payload → Except PyError Payload := .ok
  body : Payload → Payload → Except PyError Returned

/-- `input_model` : its name, and `model_validate` with `model_dump` after it. -/
structure InputModel where
  name : String
  validate : Payload → Except PyError Payload

structure AffordanceContract where
  name : String
  kind : AffordanceKind
  description : String := ""
  capabilityRef : Option String := none
  inputModel : InputModel

/-- `_input_model`. -/
def inputModel (ownerName methodName : String) (fn : Member) : Except PyError InputModel :=
  if fn.parameters.any fun p => p.name ≠ "self" && p.name ≠ "cls" && p.variadic then
    .error ⟨"TypeError", "AFFORDANCE_VARIADIC_REFUSED:" ++ ownerName ++ "." ++ methodName⟩
  else .ok ⟨ownerName ++ "_" ++ methodName ++ "_Input", fn.validate⟩

/-! ## Classes -/

/-- A class statement. -/
structure ClassDef where
  name : String
  bases : List ℕ := []
  /-- `metaclass=WorldObjectMeta`. -/
  metaclass : Bool := false
  /-- Its namespace. -/
  members : List (String × Member) := []
  distinct : (members.map Prod.fst).Nodup

structure Class extends ClassDef where
  mro : List ℕ
  /-- Its metaclass is `WorldObjectMeta`, or derives from it. -/
  world : Bool
  /-- `__affordances__`, or nothing. -/
  affordances : Dict AffordanceContract

/-- The classes created so far. -/
abbrev Classes := List Class

/-- `contracts.update(…)`. -/
def update (contracts other : Dict AffordanceContract) : Dict AffordanceContract := fun name =>
  (other name).or (contracts name)

/-- The body of the loop over the namespace. -/
def declare (owner : String) (contracts : Dict AffordanceContract) (item : String × Member) :
    Except PyError (Dict AffordanceContract) :=
  match item.2.marker with
  | none => .ok contracts
  | some marker =>
    if item.1.toList.head? = some '_' then
      .error ⟨"TypeError", "PRIVATE_AFFORDANCE_REFUSED:" ++ owner ++ "." ++ item.1⟩
    else do
      let model ← inputModel owner item.1 item.2
      return Function.update contracts item.1 (some
        { name := item.1, kind := marker.kind,
          description := CloudSim.strip (item.2.doc.getD ""),
          capabilityRef := marker.capabilityRef, inputModel := model })

/-- The contracts of the bases. -/
def inherited (bases : List Class) : Dict AffordanceContract :=
  bases.foldl (fun contracts base => update contracts base.affordances) fun _ => none

/-- The bases of a class statement. -/
def baseOf (H : Classes) (b : ℕ) : Except PyError Class :=
  match H[b]? with
  | none => .error ⟨"NameError", "name is not defined"⟩
  | some base => .ok base

/-- `mro` of a class whose number is `i`. -/
def resolutionOrder (i : ℕ) (d : ClassDef) (bases : List Class) : Except PyError (List ℕ) :=
  match (d.bases.zip bases).find? fun base => 1 < d.bases.count base.1 with
  | some (_, base) => .error ⟨"TypeError", "duplicate base class " ++ base.name⟩
  | none =>
    match Linearization.merge (bases.map Class.mro ++ [d.bases]) with
    | none => .error ⟨"TypeError",
        "Cannot create a consistent method resolution\norder (MRO) for bases " ++
          ", ".intercalate (bases.map (·.name))⟩
    | some rest => .ok (i :: rest)

/-- The contracts of a new class; a class of another metaclass has none. -/
def contractsOf (d : ClassDef) (bases : List Class) (world : Bool) :
    Except PyError (Dict AffordanceContract) :=
  if world then d.members.foldlM (declare d.name) (inherited bases) else .ok fun _ => none

/-- Run a class statement. -/
def define (H : Classes) (d : ClassDef) : Except PyError Classes := do
  let bases ← d.bases.mapM (baseOf H)
  let mro ← resolutionOrder H.length d bases
  let world := d.metaclass || bases.any Class.world
  let affordances ← contractsOf d bases world
  return H ++ [⟨d, mro, world, affordances⟩]

/-- Run the class statements of a program. -/
def build (ds : List ClassDef) : Except PyError Classes := ds.foldlM define []

/-- The function that the class `i` looks `name` up to. -/
def resolve (H : Classes) (i : ℕ) (name : String) : Option Member :=
  (H[i]?).bind fun c => c.mro.findSome? fun j => (H[j]?).bind fun d => d.members.lookup name

/-! ## The runtime -/

structure WorldObject where
  iri : String
  /-- `type(obj)`. -/
  cls : ℕ
  fields : Payload := []

structure EffectResult where
  accepted : Bool
  receipt : Value
  result : Value := .null

structure WorldRuntime where
  objects : Dict WorldObject := fun _ => none
  effectPort : Option (String → EffectIntent → Except PyError EffectResult) := none

/-- `register`. -/
def WorldRuntime.register (rt : WorldRuntime) (obj : WorldObject) : Except PyError WorldRuntime :=
  match rt.objects obj.iri with
  | some _ => .error ⟨"ValueError", "DUPLICATE_WORLD_OBJECT:" ++ obj.iri⟩
  | none => .ok { rt with objects := Function.update rt.objects obj.iri (some obj) }

/-- What `invoke` returns : the value of the method, or what the port returned. -/
inductive Invoked
  | value (value : Returned)
  | result (result : EffectResult)

/-- A computation that counts the calls of the port. -/
abbrev PortM := StateT (List (String × EffectIntent)) (Except PyError)

/-- The intent of what the method of an effect returned. -/
def intentOf (contract : AffordanceContract) : Returned → Except PyError EffectIntent
  | .intent intent =>
    if some intent.capabilityRef ≠ contract.capabilityRef then
      .error ⟨"ValueError", "EFFECT_CAPABILITY_MISMATCH"⟩
    else .ok intent
  | .model payload | .mapping payload =>
    if h : contract.capabilityRef.getD "" = "" then
      .error ⟨"ValidationError", "String should have at least 1 character"⟩
    else .ok ⟨contract.capabilityRef.getD "", payload, h⟩
  | .other _ =>
    .error ⟨"TypeError", "EFFECT_CONSTRUCTOR_MUST_RETURN_MAPPING_OR_EFFECT_INTENT"⟩

/-- The call of the port. -/
def execute (port : String → EffectIntent → Except PyError EffectResult) (subjectRef : String)
    (intent : EffectIntent) : PortM EffectResult := do
  modify (· ++ [(subjectRef, intent)])
  port subjectRef intent

section Invoke

-- Python's `repr` of a string
variable (reprOf : String → String)

/-- `invoke` once the method returned. -/
def settle (rt : WorldRuntime) (subjectRef affordance : String) (contract : AffordanceContract)
    (value : Returned) : PortM Invoked :=
  if contract.kind ≠ .effect then return .value value
  else
    match rt.effectPort with
    | none => throw ⟨"EffectPortRequired", "REFUSED:EFFECT_PORT_REQUIRED subject=" ++
        reprOf subjectRef ++ " affordance=" ++ reprOf affordance⟩
    | some port => do
      let intent ← intentOf contract value
      let result ← execute port subjectRef intent
      if result.receipt = .null then throw ⟨"RuntimeError", "UNRECEIPTED_EFFECT_RESULT_REFUSED"⟩
      return .result result

/-- The object of a call and the contract of its affordance. -/
def contractFor (H : Classes) (rt : WorldRuntime) (subjectRef affordance : String) :
    Except PyError (WorldObject × AffordanceContract) :=
  match rt.objects subjectRef with
  | none => .error ⟨"KeyError", "UNKNOWN_WORLD_OBJECT:" ++ subjectRef⟩
  | some obj =>
    match (H[obj.cls]?).bind fun c => c.affordances affordance with
    | none => .error ⟨"KeyError", "UNKNOWN_AFFORDANCE:" ++ subjectRef ++ ":" ++ affordance⟩
    | some contract => .ok (obj, contract)

/-- `method(**validated.model_dump())` of `getattr(obj, affordance)`. -/
def callMethod (H : Classes) (obj : WorldObject) (affordance : String) (arguments : Payload) :
    Except PyError Returned :=
  match resolve H obj.cls affordance with
  | none => .error ⟨"AttributeError", affordance⟩
  | some method => method.body obj.fields arguments

/-- `invoke`. -/
def invoke (H : Classes) (rt : WorldRuntime) (subjectRef affordance : String)
    (arguments : Payload := []) : PortM Invoked := do
  let found ← contractFor H rt subjectRef affordance
  let validated ← found.2.inputModel.validate arguments
  let value ← callMethod H found.1 affordance validated
  settle reprOf rt subjectRef affordance found.2 value

end Invoke

end World

end GymAct
