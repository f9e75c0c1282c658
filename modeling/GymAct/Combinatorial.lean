import GymAct.ActionContract
import Mathlib.Algebra.Order.Ring.Rat

/-!
# The possibility graph

`combinatorial.py` with `consequence_binding.py` : a powerless graph of objects and typed
morphisms, objective vectors that compose along a path, the evaluation of one morphism
against what is admitted, and the records an exploration returns. Objectives are exact
rationals.

`PossibilityGraph.Valid` is what `validate_topology` checks at construction; the methods
that copy a graph do not check it again, so it is not a field of the graph.
-/

namespace GymAct

/-- A `ValueError`. -/
def valueError (message : String) : PyError := ⟨"ValueError", message⟩

/-! ## Semantic bindings of consequences -/

/-- One DO edge denotes one exact semantic action. -/
structure ConsequenceBinding where
  actionRef : String
  subjectRef : String
  capabilityRef : String
  verifierRef : String
  expectedEffectDigest : String
  deriving DecidableEq, Repr

def ConsequenceBinding.items (b : ConsequenceBinding) : List (String × String) :=
  [("action_ref", b.actionRef), ("subject_ref", b.subjectRef), ("capability_ref", b.capabilityRef),
    ("verifier_ref", b.verifierRef), ("expected_effect_digest", b.expectedEffectDigest)]

/-- `ConsequenceBinding(…)` : no field is empty. -/
def ConsequenceBinding.construct (b : ConsequenceBinding) : Except PyError ConsequenceBinding :=
  if b.items.all fun item => item.2 ≠ "" then .ok b
  else .error ⟨"ValidationError", "ConsequenceBinding"⟩

/-- `expected_effect_digest`. -/
def expectedEffectDigest (C : Canon) (action : ActionDefinition) : Except PyError String :=
  C.digest (.list (action.expectedEffects.map ExpectedEffect.modelDump))

/-- `bind_action_consequence`. -/
def bindActionConsequence (C : Canon) (action : ActionDefinition) (subject : SubjectRef) :
    Except PyError ConsequenceBinding := do
  let effects ← expectedEffectDigest C action
  ConsequenceBinding.construct
    { actionRef := action.semanticId, subjectRef := subject.semanticId,
      capabilityRef := action.capabilityRef, verifierRef := action.verification.observerRef,
      expectedEffectDigest := effects }

/-- `_BINDING_KEY`. -/
def bindingKey : String := "consequence_binding"

/-- A string under a key. -/
def strAt (items : Payload) (key : String) : Option String :=
  match items.lookup key with
  | some (.str s) => some s
  | _ => none

/-- `ConsequenceBinding.model_validate` : the five strings, and nothing else. -/
def ConsequenceBinding.modelValidate : Value → Except PyError ConsequenceBinding
  | .dict items =>
    match strAt items "action_ref", strAt items "subject_ref", strAt items "capability_ref",
      strAt items "verifier_ref", strAt items "expected_effect_digest" with
    | some actionRef, some subjectRef, some capabilityRef, some verifierRef,
        some expectedEffectDigest =>
      if items.length = 5 then
        ConsequenceBinding.construct
          ⟨actionRef, subjectRef, capabilityRef, verifierRef, expectedEffectDigest⟩
      else .error ⟨"ValidationError", "ConsequenceBinding"⟩
    | _, _, _, _, _ => .error ⟨"ValidationError", "ConsequenceBinding"⟩
  | _ => .error ⟨"ValidationError", "ConsequenceBinding"⟩

/-- `consequence_binding_attributes`. -/
def consequenceBindingAttributes (b : ConsequenceBinding) : Payload :=
  [(bindingKey, .dict (b.items.map fun item => (item.1, .str item.2)))]

/-- `read_consequence_binding`. -/
def readConsequenceBinding (attributes : Payload) : Except PyError (Option ConsequenceBinding) :=
  match attributes.lookup bindingKey with
  | none | some .null => .ok none
  | some raw => some <$> ConsequenceBinding.modelValidate raw

/-- A constructed binding is read back from the attributes it is encoded in. -/
theorem readConsequenceBinding_attributes {b c : ConsequenceBinding} (h : b.construct = .ok c) :
    readConsequenceBinding (consequenceBindingAttributes b) = .ok (some b) := by
  obtain rfl : b = c := by
    unfold ConsequenceBinding.construct at h
    split at h <;> cases h
    rfl
  simp [readConsequenceBinding, consequenceBindingAttributes, bindingKey,
    ConsequenceBinding.modelValidate, ConsequenceBinding.items, strAt, List.lookup_cons,
    List.lookup_nil, h]

/-! ## Objects and morphisms -/

inductive PossibilityObjectKind
  | observation | admittedObservation | subject | capability | action | plan | provider | planner
  | verifier | policy | controller | process | receipt
  deriving DecidableEq, Repr

def PossibilityObjectKind.value : PossibilityObjectKind → String
  | observation => "observation"
  | admittedObservation => "admitted_observation"
  | subject => "subject"
  | capability => "capability"
  | action => "action"
  | plan => "plan"
  | provider => "provider"
  | planner => "planner"
  | verifier => "verifier"
  | policy => "policy"
  | controller => "controller"
  | process => "process"
  | receipt => "receipt"

inductive MorphismKind
  | observe | admits | enable | realize | plan | project | manufacture | verify | compensate
  | reverse | actuate | replay | reuse
  deriving DecidableEq, Repr

def MorphismKind.value : MorphismKind → String
  | observe => "observe"
  | admits => "admit"
  | enable => "enable"
  | realize => "realize"
  | plan => "plan"
  | project => "project"
  | manufacture => "manufacture"
  | verify => "verify"
  | compensate => "compensate"
  | reverse => "reverse"
  | actuate => "actuate"
  | replay => "replay"
  | reuse => "reuse"

/-- SELECT and CONSTRUCT are powerless, DO is consequential. -/
inductive DecisionPhase
  | select | construct | do
  deriving DecidableEq, Repr

def DecisionPhase.value : DecisionPhase → String
  | select => "SELECT"
  | construct => "CONSTRUCT"
  | .do => "DO"

/-- `_FORBIDDEN_AUTHORITY_KEYS`. -/
def forbiddenAuthorityKeys : List String :=
  ["execution_grant", "executiongrant", "grant", "principal", "delegated_principal", "nonce",
    "authority_ref"]

mutual

/-- `_forbid_authority_payload` raises. The keys it forbids are ASCII, and so is every
character whose lower case they contain. -/
def carriesAuthority : Value → Bool
  | .list items => carriesAuthorityList items
  | .dict items => carriesAuthorityItems items
  | .null | .bool _ | .int _ | .float _ | .str _ => false

def carriesAuthorityList : List Value → Bool
  | [] => false
  | v :: vs => carriesAuthority v || carriesAuthorityList vs

def carriesAuthorityItems : List (String × Value) → Bool
  | [] => false
  | (k, v) :: vs =>
    forbiddenAuthorityKeys.contains k.toLower || carriesAuthority v || carriesAuthorityItems vs

end

theorem carriesAuthority_empty : carriesAuthority (.dict []) = false := by decide

@[ext]
structure PossibilityObject where
  objectId : String
  kind : PossibilityObjectKind
  semanticRef : String
  revision : Option String := none
  ontologyRefs : List String := []
  standing : Standing := .unknown
  evidenceRefs : List String := []
  attributes : Payload := []
  objectId_ne : objectId ≠ "" := by decide
  semanticRef_ne : semanticRef ≠ "" := by decide
  powerless : carriesAuthority (.dict attributes) = false := by
    first | exact carriesAuthority_empty | decide
  deriving Repr

instance : DecidableEq PossibilityObject := fun _ _ =>
  decidable_of_iff _ PossibilityObject.ext_iff.symm

def PossibilityObject.modelDump (o : PossibilityObject) : Value :=
  .dict [("object_id", .str o.objectId), ("kind", .str o.kind.value),
    ("semantic_ref", .str o.semanticRef), ("revision", .ofOption o.revision),
    ("ontology_refs", .ofStrings o.ontologyRefs), ("standing", .str o.standing.value),
    ("evidence_refs", .ofStrings o.evidenceRefs), ("attributes", .dict o.attributes)]

theorem free_nonneg : (0 : ℚ) ≤ 0 := le_rfl

theorem confidence_le_top : 4 ≤ 4 := le_rfl

/-- Composable objectives. Lower is better except for confidence and value. -/
@[ext]
structure ObjectiveVector where
  monetaryCost : ℚ := 0
  wallTimeS : ℚ := 0
  computeUnits : ℚ := 0
  humanInterventions : ℚ := 0
  riskScore : ℚ := 0
  verificationConfidence : ℕ := 4
  expectedValue : ℚ := 0
  monetaryCost_nonneg : 0 ≤ monetaryCost := by first | exact free_nonneg | decide
  wallTimeS_nonneg : 0 ≤ wallTimeS := by first | exact free_nonneg | decide
  computeUnits_nonneg : 0 ≤ computeUnits := by first | exact free_nonneg | decide
  humanInterventions_nonneg : 0 ≤ humanInterventions := by first | exact free_nonneg | decide
  riskScore_nonneg : 0 ≤ riskScore := by first | exact free_nonneg | decide
  verificationConfidence_le : verificationConfidence ≤ 4 := by
    first | exact confidence_le_top | decide
  deriving Repr

instance : DecidableEq ObjectiveVector := fun _ _ =>
  decidable_of_iff _ ObjectiveVector.ext_iff.symm

namespace ObjectiveVector

/-- Sequential composition : additive costs and risk, bottleneck confidence. -/
def compose (self other : ObjectiveVector) : ObjectiveVector where
  monetaryCost := self.monetaryCost + other.monetaryCost
  wallTimeS := self.wallTimeS + other.wallTimeS
  computeUnits := self.computeUnits + other.computeUnits
  humanInterventions := self.humanInterventions + other.humanInterventions
  riskScore := self.riskScore + other.riskScore
  verificationConfidence := min self.verificationConfidence other.verificationConfidence
  expectedValue := self.expectedValue + other.expectedValue
  monetaryCost_nonneg := add_nonneg self.monetaryCost_nonneg other.monetaryCost_nonneg
  wallTimeS_nonneg := add_nonneg self.wallTimeS_nonneg other.wallTimeS_nonneg
  computeUnits_nonneg := add_nonneg self.computeUnits_nonneg other.computeUnits_nonneg
  humanInterventions_nonneg :=
    add_nonneg self.humanInterventions_nonneg other.humanInterventions_nonneg
  riskScore_nonneg := add_nonneg self.riskScore_nonneg other.riskScore_nonneg
  verificationConfidence_le := (min_le_left _ _).trans self.verificationConfidence_le

def modelDump (o : ObjectiveVector) : Value :=
  .dict [("monetary_cost", .float (.finite o.monetaryCost)),
    ("wall_time_s", .float (.finite o.wallTimeS)),
    ("compute_units", .float (.finite o.computeUnits)),
    ("human_interventions", .float (.finite o.humanInterventions)),
    ("risk_score", .float (.finite o.riskScore)),
    ("verification_confidence", .int o.verificationConfidence),
    ("expected_value", .float (.finite o.expectedValue))]

/-- The objectives of a path are RFC 8785 numbers. -/
@[simp] theorem modelDump_isCanonical (o : ObjectiveVector) : o.modelDump.isCanonical = true := by
  have h := o.verificationConfidence_le
  simp [modelDump, Value.isCanonical]
  omega

end ObjectiveVector

structure MorphismRequirements where
  capabilityRefs : List String := []
  policyRefs : List String := []
  evidenceRefs : List String := []
  requiredRevision : Option String := none
  executionGrantRequired : Bool := false
  deriving DecidableEq, Repr

def MorphismRequirements.modelDump (r : MorphismRequirements) : Value :=
  .dict [("capability_refs", .ofStrings r.capabilityRefs),
    ("policy_refs", .ofStrings r.policyRefs), ("evidence_refs", .ofStrings r.evidenceRefs),
    ("required_revision", .ofOption r.requiredRevision),
    ("execution_grant_required", .bool r.executionGrantRequired)]

theorem construct_ungranted :
    DecisionPhase.construct = .do ↔ ({} : MorphismRequirements).executionGrantRequired = true := by
  decide

theorem project_constructs :
    MorphismKind.project = .actuate → DecisionPhase.construct = .do := nofun

@[ext]
structure PossibilityMorphism where
  morphismId : String
  sourceId : String
  targetId : String
  kind : MorphismKind
  phase : DecisionPhase
  reversal : ReversalClass := .unknown
  requirements : MorphismRequirements := {}
  objectives : ObjectiveVector := {}
  standing : Standing := .candidate
  evidenceRefs : List String := []
  attributes : Payload := []
  morphismId_ne : morphismId ≠ "" := by decide
  sourceId_ne : sourceId ≠ "" := by decide
  targetId_ne : targetId ≠ "" := by decide
  /-- The branches of `enforce_do_boundary_and_powerlessness`. -/
  powerless : carriesAuthority (.dict attributes) = false := by
    first | exact carriesAuthority_empty | decide
  actuation : kind = .actuate → phase = .do := by decide
  grantRequired : phase = .do ↔ requirements.executionGrantRequired = true := by
    first | exact construct_ungranted | decide
  deriving Repr

instance : DecidableEq PossibilityMorphism := fun _ _ =>
  decidable_of_iff _ PossibilityMorphism.ext_iff.symm

def PossibilityMorphism.modelDump (m : PossibilityMorphism) : Value :=
  .dict [("morphism_id", .str m.morphismId), ("source_id", .str m.sourceId),
    ("target_id", .str m.targetId), ("kind", .str m.kind.value), ("phase", .str m.phase.value),
    ("reversal", .str m.reversal.value), ("requirements", m.requirements.modelDump),
    ("objectives", m.objectives.modelDump), ("standing", .str m.standing.value),
    ("evidence_refs", .ofStrings m.evidenceRefs), ("attributes", .dict m.attributes)]

/-! ## Graphs -/

structure PossibilityGraph where
  objects : List PossibilityObject := []
  morphisms : List PossibilityMorphism := []
  deriving DecidableEq, Repr

namespace PossibilityGraph

variable (g : PossibilityGraph)

/-- Ids are unique, and every endpoint is in the graph. -/
structure Valid : Prop where
  objectIds : (g.objects.map PossibilityObject.objectId).Nodup
  morphismIds : (g.morphisms.map PossibilityMorphism.morphismId).Nodup
  endpoints : ∀ edge ∈ g.morphisms,
    edge.sourceId ∈ g.objects.map PossibilityObject.objectId ∧
      edge.targetId ∈ g.objects.map PossibilityObject.objectId

/-- `validate_topology`. -/
def validateTopology : Except PyError PossibilityGraph :=
  let objectIds := g.objects.map PossibilityObject.objectId
  let morphismIds := g.morphisms.map PossibilityMorphism.morphismId
  if ¬ objectIds.Nodup then .error (valueError "DUPLICATE_POSSIBILITY_OBJECT_ID")
  else if ¬ morphismIds.Nodup then .error (valueError "DUPLICATE_POSSIBILITY_MORPHISM_ID")
  else if ∃ edge ∈ g.morphisms, edge.sourceId ∉ objectIds ∨ edge.targetId ∉ objectIds then
    .error (valueError "MORPHISM_ENDPOINT_NOT_IN_GRAPH")
  else .ok g

/-- A graph is constructed when it is valid. -/
theorem validateTopology_ok_iff : g.validateTopology = .ok g ↔ g.Valid := by
  unfold validateTopology
  dsimp only
  split
  case isTrue hobjects => exact ⟨nofun, fun h => absurd h.objectIds hobjects⟩
  split
  case isTrue hmorphisms => exact ⟨nofun, fun h => absurd h.morphismIds hmorphisms⟩
  split
  case isTrue hendpoints =>
    obtain ⟨edge, he, hout⟩ := hendpoints
    refine ⟨nofun, fun h => ?_⟩
    have hin := h.endpoints edge he
    tauto
  case isFalse hobjects hmorphisms hendpoints =>
    refine ⟨fun _ => ⟨not_not.mp hobjects, not_not.mp hmorphisms, fun edge he => ?_⟩, fun _ => rfl⟩
    by_contra hout
    exact hendpoints ⟨edge, he, by tauto⟩

def modelDump : Value :=
  .dict [("objects", .list (g.objects.map PossibilityObject.modelDump)),
    ("morphisms", .list (g.morphisms.map PossibilityMorphism.modelDump))]

/-- `graph_digest`. -/
def graphDigest (C : Canon) : Except PyError String := C.digest g.modelDump

/-- `object`. -/
def object (objectId : String) : Except PyError PossibilityObject :=
  match g.objects.find? fun item => item.objectId == objectId with
  | some item => .ok item
  | none => .error ⟨"KeyError", objectId⟩

/-- `outgoing`. -/
def outgoing (objectId : String) : List PossibilityMorphism :=
  g.morphisms.filter fun item => item.sourceId == objectId

@[simp] theorem mem_outgoing {objectId : String} {edge : PossibilityMorphism} :
    edge ∈ g.outgoing objectId ↔ edge ∈ g.morphisms ∧ edge.sourceId = objectId := by
  simp [outgoing]

end PossibilityGraph

/-! ## Exploration -/

structure ExplorationBounds where
  maxDepth : ℕ := 16
  maxPaths : ℕ := 4096
  maxCombinations : ℕ := 10000
  maxMonetaryCost : Option ℚ := none
  maxWallTimeS : Option ℚ := none
  maxComputeUnits : Option ℚ := none
  maxHumanInterventions : Option ℚ := none
  maxRiskScore : Option ℚ := none
  maxPaths_pos : 1 ≤ maxPaths := by decide
  maxCombinations_pos : 1 ≤ maxCombinations := by decide
  limits_nonneg : ∀ limit ∈ [maxMonetaryCost, maxWallTimeS, maxComputeUnits,
    maxHumanInterventions, maxRiskScore], ∀ q, limit = some q → 0 ≤ q := by simp
  deriving Repr

/-- Facts that are admitted. A grant is referenced, never embedded. -/
structure AdmissionContext where
  capabilityRefs : List String := []
  policyRefs : List String := []
  evidenceRefs : List String := []
  currentRevision : Option String := none
  executionGrantRef : Option String := none
  deriving DecidableEq, Repr

structure MorphismEvaluation where
  morphismId : String
  standing : Standing
  admitted : Bool
  reason : String
  deriving DecidableEq, Repr

def MorphismEvaluation.modelDump (e : MorphismEvaluation) : Value :=
  .dict [("morphism_id", .str e.morphismId), ("standing", .str e.standing.value),
    ("admitted", .bool e.admitted), ("reason", .str e.reason)]

structure PossibilityPath where
  objectIds : List String
  morphismIds : List String := []
  objectives : ObjectiveVector := {}
  deriving DecidableEq, Repr

namespace PossibilityPath

def modelDump (p : PossibilityPath) : Value :=
  .dict [("object_ids", .ofStrings p.objectIds), ("morphism_ids", .ofStrings p.morphismIds),
    ("objectives", p.objectives.modelDump)]

/-- `path_id`. -/
def pathId (C : Canon) (p : PossibilityPath) : Except PyError String := C.digest p.modelDump

/-- `object_ids[-1]`. -/
def lastId (p : PossibilityPath) : String := p.objectIds.getLastD ""

/-- A path has an id. -/
theorem pathId_ok {C : Canon} (hC : C.Total) (p : PossibilityPath) : ∃ d, p.pathId C = .ok d :=
  hC.digest (by simp [modelDump])

end PossibilityPath

structure IrreversibleFrontierEdge where
  pathId : String
  morphismId : String
  targetId : String
  standing : Standing
  admitted : Bool
  reason : String
  deriving DecidableEq, Repr

def IrreversibleFrontierEdge.modelDump (f : IrreversibleFrontierEdge) : Value :=
  .dict [("path_id", .str f.pathId), ("morphism_id", .str f.morphismId),
    ("target_id", .str f.targetId), ("standing", .str f.standing.value),
    ("admitted", .bool f.admitted), ("reason", .str f.reason)]

structure ExplorationResult where
  graphDigest : String
  startIds : List String
  paths : List PossibilityPath
  paretoPathIds : List String
  irreversibleFrontier : List IrreversibleFrontierEdge
  evaluations : List MorphismEvaluation
  truncated : Bool
  truncationReasons : List String := []
  deriving DecidableEq, Repr

def ExplorationResult.modelDump (r : ExplorationResult) : Value :=
  .dict [("graph_digest", .str r.graphDigest), ("start_ids", .ofStrings r.startIds),
    ("paths", .list (r.paths.map PossibilityPath.modelDump)),
    ("pareto_path_ids", .ofStrings r.paretoPathIds),
    ("irreversible_frontier",
      .list (r.irreversibleFrontier.map IrreversibleFrontierEdge.modelDump)),
    ("evaluations", .list (r.evaluations.map MorphismEvaluation.modelDump)),
    ("truncated", .bool r.truncated), ("truncation_reasons", .ofStrings r.truncationReasons)]

/-- The dump of an exploration result is canonical. -/
theorem ExplorationResult.modelDump_isCanonical (r : ExplorationResult) :
    r.modelDump.isCanonical = true := by
  have hlist : ∀ {α : Type} (dump : α → Value), (∀ a, (dump a).isCanonical = true) →
      ∀ as : List α, (Value.list (as.map dump)).isCanonical = true := by
    intro α dump h as
    rw [Value.isCanonical_list_iff]
    simpa using fun a _ => h a
  have hpaths := hlist PossibilityPath.modelDump
    (fun p => by simp [PossibilityPath.modelDump]) r.paths
  have hfrontier := hlist IrreversibleFrontierEdge.modelDump
    (fun f => by simp [IrreversibleFrontierEdge.modelDump]) r.irreversibleFrontier
  have hevaluations := hlist MorphismEvaluation.modelDump
    (fun e => by simp [MorphismEvaluation.modelDump]) r.evaluations
  simp [modelDump, hpaths, hfrontier, hevaluations]

/-- `limit is None or observed <= limit`. -/
def withinLimit (observed : ℚ) (limit : Option ℚ) : Bool := limit.all fun q => observed ≤ q

/-- `_within_bounds`. -/
def withinBounds (value : ObjectiveVector) (bounds : ExplorationBounds) : Bool :=
  withinLimit value.monetaryCost bounds.maxMonetaryCost &&
    withinLimit value.wallTimeS bounds.maxWallTimeS &&
    withinLimit value.computeUnits bounds.maxComputeUnits &&
    withinLimit value.humanInterventions bounds.maxHumanInterventions &&
    withinLimit value.riskScore bounds.maxRiskScore

/-- `set(required).issubset(available)`. -/
def subsetOf (required available : List String) : Bool := required.all fun r => available.contains r

/-- `evaluate_morphism`. -/
def evaluateMorphism (morphism : PossibilityMorphism) (context : AdmissionContext) :
    Except PyError MorphismEvaluation :=
  let required := morphism.requirements
  let verdict (standing : Standing) (admitted : Bool) (reason : String) : MorphismEvaluation :=
    { morphismId := morphism.morphismId, standing, admitted, reason }
  if morphism.standing ∈ [Standing.blocked, .unsupported, .refused, .stale] then
    .ok (verdict morphism.standing false ("EDGE_STANDING_" ++ morphism.standing.value))
  else if subsetOf required.capabilityRefs context.capabilityRefs = false then
    .ok (verdict .unsupported false "REQUIRED_CAPABILITY_UNAVAILABLE")
  else if subsetOf required.policyRefs context.policyRefs = false then
    .ok (verdict .refused false "POLICY_NOT_ADMITTED")
  else if subsetOf required.evidenceRefs context.evidenceRefs = false then
    .ok (verdict .blocked false "REQUIRED_EVIDENCE_MISSING")
  else if required.requiredRevision ≠ none ∧ context.currentRevision ≠ required.requiredRevision then
    .ok (verdict .stale false "REVISION_MISMATCH")
  else if required.executionGrantRequired ∧ context.executionGrantRef = none then
    .ok (verdict .candidate false "EXECUTION_GRANT_REQUIRED")
  else if morphism.phase = .do then do
    let binding ← readConsequenceBinding morphism.attributes
    match binding with
    | none => .ok (verdict .candidate false "DO_SEMANTIC_BINDING_REQUIRED")
    | some _ => .ok (verdict .candidate true "LAWFUL_EDGE_ADMITTED")
  else .ok (verdict .candidate true "LAWFUL_EDGE_ADMITTED")

/-- Only a DO edge with a malformed binding fails to be evaluated. -/
theorem evaluateMorphism_ok {morphism : PossibilityMorphism} (context : AdmissionContext)
    (h : morphism.phase = .do → ∃ b, readConsequenceBinding morphism.attributes = .ok b) :
    ∃ evaluation, evaluateMorphism morphism context = .ok evaluation := by
  unfold evaluateMorphism
  dsimp only
  split_ifs with h1 h2 h3 h4 h5 h6 hdo
  all_goals try exact ⟨_, rfl⟩
  obtain ⟨b, hb⟩ := h hdo
  rw [hb]
  cases b <;> exact ⟨_, rfl⟩

/-- `_dominates`. -/
def dominates (left right : PossibilityPath) : Bool :=
  let lhs := left.objectives
  let r := right.objectives
  let noWorse := lhs.monetaryCost ≤ r.monetaryCost ∧ lhs.wallTimeS ≤ r.wallTimeS ∧
    lhs.computeUnits ≤ r.computeUnits ∧ lhs.humanInterventions ≤ r.humanInterventions ∧
    lhs.riskScore ≤ r.riskScore ∧ r.verificationConfidence ≤ lhs.verificationConfidence ∧
    r.expectedValue ≤ lhs.expectedValue
  let better := lhs.monetaryCost < r.monetaryCost ∨ lhs.wallTimeS < r.wallTimeS ∨
    lhs.computeUnits < r.computeUnits ∨ lhs.humanInterventions < r.humanInterventions ∨
    lhs.riskScore < r.riskScore ∨ r.verificationConfidence < lhs.verificationConfidence ∨
    r.expectedValue < lhs.expectedValue
  noWorse ∧ better

/-- `pareto_paths`. A path does not dominate itself, so it need not be told apart from the
others. -/
def paretoPaths (paths : List PossibilityPath) : List PossibilityPath :=
  paths.filter fun candidate => !paths.any fun other => dominates other candidate

end GymAct
