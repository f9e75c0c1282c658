import GymAct.Value

/-!
# The runtime models

The records of `models.py`, with their defaults, and `model_dump(mode="json")` of the
ones the kernel digests. The requests of the kernel are `CanonicalInputModel`s : a
pydantic validator refuses them at construction unless RFC 8785 can encode their dump
(`CanonicalIn`).
-/

namespace GymAct

/-- Evidence-aware standing for a runtime result. -/
inductive Standing
  | unknown | candidate | structural | partialAlive | alive | adopted | blocked | buildBroken
  | unsupported | requiresConfiguration | refused | uncertain | stale
  deriving DecidableEq, Repr

def Standing.value : Standing → String
  | unknown => "UNKNOWN"
  | candidate => "CANDIDATE"
  | structural => "STRUCTURAL"
  | partialAlive => "PARTIAL_ALIVE"
  | alive => "ALIVE"
  | adopted => "ADOPTED"
  | blocked => "BLOCKED"
  | buildBroken => "BUILD_BROKEN"
  | unsupported => "UNSUPPORTED"
  | requiresConfiguration => "REQUIRES_CONFIGURATION"
  | refused => "REFUSED"
  | uncertain => "UNCERTAIN"
  | stale => "STALE"

/-- Consequence classification of a capability. -/
inductive Consequence
  | read | do
  deriving DecidableEq, Repr

def Consequence.value : Consequence → String
  | read => "READ"
  | .do => "DO"

/-- Operations the runtime executes. -/
inductive Operation
  | discover | materialize | observe | act | verify | checkpoint | restore | teardown
  deriving DecidableEq, Repr

def Operation.value : Operation → String
  | discover => "discover"
  | materialize => "materialize"
  | observe => "observe"
  | act => "act"
  | verify => "verify"
  | checkpoint => "checkpoint"
  | restore => "restore"
  | teardown => "teardown"

/-- The `kind` of a cost. -/
inductive CostKind
  | declaredEstimate | observedActual
  deriving DecidableEq, Repr

def CostKind.value : CostKind → String
  | declaredEstimate => "declared_estimate"
  | observedActual => "observed_actual"

/-- One cost quantity of an action, with its unit and provenance. -/
structure CostDimension where
  unit : String
  quantity : PyFloat
  kind : CostKind
  source : String
  deriving DecidableEq, Repr

def CostDimension.modelDump (c : CostDimension) : Value :=
  .dict [("unit", .str c.unit), ("quantity", .float c.quantity), ("kind", .str c.kind.value),
    ("source", .str c.source)]

/-- A capability an environment exposes. -/
structure Capability where
  iri : String
  title : String
  consequence : Consequence
  binding : String
  costs : List CostDimension := []
  deriving DecidableEq, Repr

/-- One bounded attempt against one materialized environment. -/
structure Episode where
  episodeId : String
  provider : String
  environmentId : String
  scenario : Option String := none
  standing : Standing := .alive
  deriving DecidableEq, Repr

/-- Evidence about an environment. -/
structure Observation where
  episodeId : String
  state : Payload
  stateDigest : String
  deriving DecidableEq, Repr

/-- What an authority resolver is asked before a consequential operation. -/
structure AuthorityRequest where
  episodeId : String
  subjectRef : String
  operation : Operation
  capabilityRef : String
  payload : Payload := []
  authorityRef : Option String := none
  principal : Option String := none
  deriving DecidableEq, Repr

def AuthorityRequest.modelDump (r : AuthorityRequest) : Value :=
  .dict [("episode_id", .str r.episodeId), ("subject_ref", .str r.subjectRef),
    ("operation", .str r.operation.value), ("capability_ref", .str r.capabilityRef),
    ("payload", .dict r.payload), ("authority_ref", .ofOption r.authorityRef),
    ("principal", .ofOption r.principal)]

/-- An authority resolver's verdict. -/
structure AuthorityDecision where
  admitted : Bool
  reason : String
  evidenceRef : Option String := none
  deriving DecidableEq, Repr

/-- Request to create one episode. -/
structure MaterializationIntent where
  provider : String := "memory"
  scenario : Option String := none
  config : Payload := []
  authorityRef : Option String := none
  principal : Option String := none
  idempotencyKey : String
  deriving DecidableEq, Repr

def MaterializationIntent.modelDump (i : MaterializationIntent) : Value :=
  .dict [("provider", .str i.provider), ("scenario", .ofOption i.scenario),
    ("config", .dict i.config), ("authority_ref", .ofOption i.authorityRef),
    ("principal", .ofOption i.principal), ("idempotency_key", .str i.idempotencyKey),
    ("operation", .str Operation.materialize.value)]

/-- Requested invocation of a consequential capability. -/
structure ActuationIntent where
  episodeId : String
  capability : String
  payload : Payload := []
  authorityRef : Option String := none
  principal : Option String := none
  planningProvenanceDigest : Option String := none
  idempotencyKey : String
  deriving DecidableEq, Repr

def ActuationIntent.modelDump (i : ActuationIntent) : Value :=
  .dict [("episode_id", .str i.episodeId), ("capability", .str i.capability),
    ("payload", .dict i.payload), ("authority_ref", .ofOption i.authorityRef),
    ("principal", .ofOption i.principal),
    ("planning_provenance_digest", .ofOption i.planningProvenanceDigest),
    ("idempotency_key", .str i.idempotencyKey), ("operation", .str Operation.act.value)]

/-- The validator of `CanonicalInputModel` : the dump has canonical bytes. -/
def CanonicalIn (C : Canon) (dump : Value) : Prop := ∃ b, C.canonicalBytes dump = .ok b

theorem CanonicalIn.digest {C : Canon} {dump : Value} (h : CanonicalIn C dump) :
    ∃ d, C.digest dump = .ok d := by
  obtain ⟨b, hb⟩ := h
  exact ⟨C.blake3 b, by simp [Canon.digest, hb, Except.map]⟩

/-- Predicate result over observed state. -/
structure VerificationResult where
  verificationId : String
  episodeId : String
  passed : Bool
  expected : Payload
  observed : Payload
  stateDigest : String
  deriving DecidableEq, Repr

/-- Bounded causal evidence for one runtime disposition. -/
structure Receipt where
  receiptId : String := ""
  occurredAt : String := ""
  episodeId : String
  operation : Operation
  standing : Standing
  subjectRef : Option String := none
  capabilityRef : Option String := none
  authorityRef : Option String := none
  authorityEvidenceRef : Option String := none
  principal : Option String := none
  delegatedPrincipal : Option String := none
  policyRevision : Option String := none
  intendedEffects : List Payload := []
  idempotencyKey : Option String := none
  planningProvenanceDigest : Option String := none
  preStateDigest : Option String := none
  postStateDigest : Option String := none
  acknowledgementStatus : Option String := none
  worldChanged : Option Bool := none
  verificationId : Option String := none
  verified : Option Bool := none
  observationConfidence : Option String := none
  possibilityGraphDigest : Option String := none
  possibilityExplorationDigest : Option String := none
  possibilityPathId : Option String := none
  possibilityMorphismId : Option String := none
  selectionDigest : Option String := none
  selectionBasisRefs : List String := []
  parentReceiptIds : List String := []
  errorDigest : Option String := none
  reason : Option String := none
  costs : List CostDimension := []
  deriving DecidableEq, Repr

namespace Receipt

/-- A receipt with its id and time drawn. -/
def stamped (r : Receipt) (receiptId occurredAt : String) : Receipt :=
  { r with receiptId, occurredAt }

@[simp] theorem stamped_receiptId (r : Receipt) (i t : String) : (r.stamped i t).receiptId = i := rfl

@[simp] theorem stamped_episodeId (r : Receipt) (i t : String) :
    (r.stamped i t).episodeId = r.episodeId := rfl

@[simp] theorem stamped_operation (r : Receipt) (i t : String) :
    (r.stamped i t).operation = r.operation := rfl

@[simp] theorem stamped_standing (r : Receipt) (i t : String) :
    (r.stamped i t).standing = r.standing := rfl

@[simp] theorem stamped_capabilityRef (r : Receipt) (i t : String) :
    (r.stamped i t).capabilityRef = r.capabilityRef := rfl

@[simp] theorem stamped_idempotencyKey (r : Receipt) (i t : String) :
    (r.stamped i t).idempotencyKey = r.idempotencyKey := rfl

@[simp] theorem stamped_intendedEffects (r : Receipt) (i t : String) :
    (r.stamped i t).intendedEffects = r.intendedEffects := rfl

@[simp] theorem stamped_costs (r : Receipt) (i t : String) : (r.stamped i t).costs = r.costs := rfl

def modelDump (r : Receipt) : Value :=
  .dict [("receipt_id", .str r.receiptId), ("occurred_at", .str r.occurredAt),
    ("episode_id", .str r.episodeId), ("operation", .str r.operation.value),
    ("standing", .str r.standing.value), ("subject_ref", .ofOption r.subjectRef),
    ("capability_ref", .ofOption r.capabilityRef), ("authority_ref", .ofOption r.authorityRef),
    ("authority_evidence_ref", .ofOption r.authorityEvidenceRef),
    ("principal", .ofOption r.principal),
    ("delegated_principal", .ofOption r.delegatedPrincipal),
    ("policy_revision", .ofOption r.policyRevision),
    ("intended_effects", .list (r.intendedEffects.map .dict)),
    ("idempotency_key", .ofOption r.idempotencyKey),
    ("planning_provenance_digest", .ofOption r.planningProvenanceDigest),
    ("pre_state_digest", .ofOption r.preStateDigest),
    ("post_state_digest", .ofOption r.postStateDigest),
    ("acknowledgement_status", .ofOption r.acknowledgementStatus),
    ("world_changed", .ofOptionBool r.worldChanged),
    ("verification_id", .ofOption r.verificationId), ("verified", .ofOptionBool r.verified),
    ("observation_confidence", .ofOption r.observationConfidence),
    ("possibility_graph_digest", .ofOption r.possibilityGraphDigest),
    ("possibility_exploration_digest", .ofOption r.possibilityExplorationDigest),
    ("possibility_path_id", .ofOption r.possibilityPathId),
    ("possibility_morphism_id", .ofOption r.possibilityMorphismId),
    ("selection_digest", .ofOption r.selectionDigest),
    ("selection_basis_refs", .ofStrings r.selectionBasisRefs),
    ("parent_receipt_ids", .ofStrings r.parentReceiptIds),
    ("error_digest", .ofOption r.errorDigest), ("reason", .ofOption r.reason),
    ("costs", .list (r.costs.map CostDimension.modelDump))]

/-- `==` of two receipts : of their fields, each of which the dump lists. -/
def pyEq (a b : Receipt) : Bool := a.modelDump.pyEq b.modelDump

/-- The dump of a receipt can leave RFC 8785 through its intended effects and its costs
only. -/
theorem modelDump_isCanonical (r : Receipt)
    (heffects : ∀ e ∈ r.intendedEffects, (Value.dict e).isCanonical = true)
    (hcosts : ∀ c ∈ r.costs, c.modelDump.isCanonical = true) :
    r.modelDump.isCanonical = true := by
  have he : (Value.list (r.intendedEffects.map .dict)).isCanonical = true := by
    rw [Value.isCanonical_list_iff]
    intro v hv
    obtain ⟨e, he, rfl⟩ := List.mem_map.mp hv
    exact heffects e he
  have hc : (Value.list (r.costs.map CostDimension.modelDump)).isCanonical = true := by
    rw [Value.isCanonical_list_iff]
    intro v hv
    obtain ⟨c, hc, rfl⟩ := List.mem_map.mp hv
    exact hcosts c hc
  simp [modelDump, he, hc]

end Receipt

/-- Disposition of a materialization. -/
structure MaterializationResult where
  accepted : Bool
  standing : Standing
  episode : Option Episode := none
  observation : Option Observation := none
  receipt : Receipt
  deriving DecidableEq, Repr

/-- Disposition of an actuation. -/
structure ActuationResult where
  accepted : Bool
  standing : Standing
  effect : Option Payload := none
  observation : Option Observation := none
  receipt : Receipt
  deriving DecidableEq, Repr

/-- The byte limits of `RuntimeLimits`, within the bounds its fields declare. -/
structure RuntimeLimits where
  maxInputBytes : ℕ := 1048576
  maxStateBytes : ℕ := 8388608
  maxCheckpointBytes : ℕ := 8388608
  input_ge : 1024 ≤ maxInputBytes := by decide
  input_le : maxInputBytes ≤ 64 * 1024 * 1024 := by decide
  state_ge : 1024 ≤ maxStateBytes := by decide
  state_le : maxStateBytes ≤ 256 * 1024 * 1024 := by decide
  checkpoint_ge : 1024 ≤ maxCheckpointBytes := by decide
  checkpoint_le : maxCheckpointBytes ≤ 256 * 1024 * 1024 := by decide

/-! ## The provider and the key of the samples -/

theorem memory_ne : "memory" ≠ "" := by decide

theorem key_ne : "k" ≠ "" := by decide

end GymAct
