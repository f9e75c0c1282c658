import GymAct.Models

/-!
# Action contracts

The models of `action_contract.py` with the validators they carry, and the two
admissions over them : `admitExecution` closes identity, capability, scope, revision and
effects of a prepared action against a grant, `admitRetry` manufactures a retry candidate
after an execution without effect.
-/

namespace GymAct

inductive IdempotencyClass
  | idempotent | conditionallyIdempotent | nonIdempotent | unknown
  deriving DecidableEq, Repr

inductive ReversalClass
  | reversible | compensatable | irreversible | unknown
  deriving DecidableEq, Repr

def ReversalClass.value : ReversalClass → String
  | reversible => "REVERSIBLE"
  | compensatable => "COMPENSATABLE"
  | irreversible => "IRREVERSIBLE"
  | unknown => "UNKNOWN"

inductive ObservationConfidence
  | selfReported | sameProviderObserved | independentChannel | multiOracle | physicalSensor
  deriving DecidableEq, Repr

inductive VerificationKind
  | exactState | predicate | shacl | query | digest | resourceExists | resourceAbsent | revision
  | event | processConformance | temporalStabilization | quorum
  deriving DecidableEq, Repr

inductive RefusalCode
  | authorityRefused | identityRefused | capabilityRefused | preconditionRefused
  | staleObservationRefused | revisionMismatchRefused | policyRefused | unsafeRetryRefused
  | ambiguousSubjectRefused | verificationRefused | unsupportedOperation
  | providerConfigurationRequired
  deriving DecidableEq, Repr

def RefusalCode.value : RefusalCode → String
  | authorityRefused => "AUTHORITY_REFUSED"
  | identityRefused => "IDENTITY_REFUSED"
  | capabilityRefused => "CAPABILITY_REFUSED"
  | preconditionRefused => "PRECONDITION_REFUSED"
  | staleObservationRefused => "STALE_OBSERVATION_REFUSED"
  | revisionMismatchRefused => "REVISION_MISMATCH_REFUSED"
  | policyRefused => "POLICY_REFUSED"
  | unsafeRetryRefused => "UNSAFE_RETRY_REFUSED"
  | ambiguousSubjectRefused => "AMBIGUOUS_SUBJECT_REFUSED"
  | verificationRefused => "VERIFICATION_REFUSED"
  | unsupportedOperation => "UNSUPPORTED_OPERATION"
  | providerConfigurationRequired => "PROVIDER_CONFIGURATION_REQUIRED"

inductive ReconciliationDisposition
  | effectConfirmed | noEffect | partialEffect | stillUncertain | retryAdmitted | retryRefused
  deriving DecidableEq, Repr

/-- A timezone-aware `datetime` : the instant it names, and its ISO text. -/
structure PyDatetime where
  instant : ℤ
  isoformat : String
  deriving DecidableEq, Repr

/-- The subject of an action, by meaning and by provider. -/
structure SubjectRef where
  semanticId : String
  providerRef : String
  revision : Option String := none
  semanticId_ne : semanticId ≠ "" := by decide
  providerRef_ne : providerRef ≠ "" := by decide
  deriving DecidableEq, Repr

def SubjectRef.modelDump (s : SubjectRef) : Value :=
  .dict [("semantic_id", .str s.semanticId), ("provider_ref", .str s.providerRef),
    ("revision", .ofOption s.revision)]

structure ExpectedEffect where
  predicate : String
  parameters : Payload := []
  predicate_ne : predicate ≠ "" := by decide
  deriving DecidableEq, Repr

namespace ExpectedEffect

/-- The dump, as the items of a dict. -/
def items (e : ExpectedEffect) : Payload :=
  [("predicate", .str e.predicate), ("parameters", .dict e.parameters)]

def modelDump (e : ExpectedEffect) : Value := .dict e.items

/-- `==` of two effects. -/
def pyEq (a b : ExpectedEffect) : Bool :=
  a.predicate == b.predicate && (Value.dict a.parameters).pyEq (.dict b.parameters)

/-- `==` of two tuples of effects. -/
def pyEqAll : List ExpectedEffect → List ExpectedEffect → Bool
  | [], [] => true
  | a :: as, b :: bs => a.pyEq b && pyEqAll as bs
  | _, _ => false

end ExpectedEffect

theorem one_quorum : 1 ≤ 1 := le_rfl

theorem exactState_quorum : VerificationKind.exactState = .quorum → 2 ≤ 1 := nofun

theorem unknown_compensation : ReversalClass.unknown = .compensatable →
    (none : Option String) ≠ none ∧ (none : Option String) ≠ some "" := nofun

/-- How an action is verified. The settle timeout is a timer, and left out. -/
structure VerificationStrategy where
  kind : VerificationKind
  observerRef : String
  expected : Payload := []
  minimumConfidence : ObservationConfidence := .sameProviderObserved
  quorum : ℕ := 1
  observerRef_ne : observerRef ≠ "" := by decide
  quorum_pos : 1 ≤ quorum := by first | exact one_quorum | decide
  /-- `require_quorum_for_quorum_strategy`. -/
  quorum_of_kind : kind = .quorum → 2 ≤ quorum := by first | exact exactState_quorum | decide
  deriving DecidableEq, Repr

/-- A semantic action, never an execution grant. -/
structure ActionDefinition where
  semanticId : String
  providerRef : String
  capabilityRef : String
  subjectType : String
  inputSchema : Payload
  preconditions : List String := []
  expectedEffects : List ExpectedEffect
  verification : VerificationStrategy
  idempotency : IdempotencyClass := .unknown
  idempotencyFields : List String := []
  reversal : ReversalClass := .unknown
  compensationActionRef : Option String := none
  standing : Standing := .unknown
  evidenceRefs : List String := []
  semanticId_ne : semanticId ≠ "" := by decide
  providerRef_ne : providerRef ≠ "" := by decide
  capabilityRef_ne : capabilityRef ≠ "" := by decide
  subjectType_ne : subjectType ≠ "" := by decide
  /-- The branches of `enforce_execution_semantics`. -/
  conditional : idempotency = .conditionallyIdempotent → idempotencyFields ≠ [] := by decide
  compensation : reversal = .compensatable →
    compensationActionRef ≠ none ∧ compensationActionRef ≠ some "" := by
    first | exact unknown_compensation | decide
  alive : standing = .alive → evidenceRefs ≠ [] := by decide
  adopted : standing = .adopted → evidenceRefs ≠ [] := by decide
  deriving DecidableEq, Repr

/-- Identity-bound authority, consumed at the DO boundary. An expiry without a timezone is
not a `PyDatetime`. -/
structure ExecutionGrant where
  principal : String
  delegatedPrincipal : Option String := none
  actionRef : String
  subject : SubjectRef
  capabilityRef : String
  authorityRef : String
  policyRevision : String
  admittedObservationRef : String
  intendedEffects : List ExpectedEffect
  scopeRefs : List String := []
  expiresAt : Option PyDatetime := none
  nonce : String
  principal_ne : principal ≠ "" := by decide
  actionRef_ne : actionRef ≠ "" := by decide
  capabilityRef_ne : capabilityRef ≠ "" := by decide
  authorityRef_ne : authorityRef ≠ "" := by decide
  policyRevision_ne : policyRevision ≠ "" := by decide
  admittedObservationRef_ne : admittedObservationRef ≠ "" := by decide
  nonce_ne : nonce ≠ "" := by decide
  deriving DecidableEq, Repr

def ExecutionGrant.modelDump (g : ExecutionGrant) : Value :=
  .dict [("principal", .str g.principal), ("delegated_principal", .ofOption g.delegatedPrincipal),
    ("action_ref", .str g.actionRef), ("subject", g.subject.modelDump),
    ("capability_ref", .str g.capabilityRef), ("authority_ref", .str g.authorityRef),
    ("policy_revision", .str g.policyRevision),
    ("admitted_observation_ref", .str g.admittedObservationRef),
    ("intended_effects", .list (g.intendedEffects.map ExpectedEffect.modelDump)),
    ("scope_refs", .ofStrings g.scopeRefs),
    ("expires_at", .ofOption (g.expiresAt.map PyDatetime.isoformat)), ("nonce", .str g.nonce)]

/-- A constructed executable intent, without authority. -/
structure PreparedAction where
  episodeId : String
  actionRef : String
  subject : SubjectRef
  payload : Payload := []
  admissionDigest : String
  planningProvenanceDigest : Option String := none
  idempotencyKey : String
  episodeId_ne : episodeId ≠ "" := by decide
  actionRef_ne : actionRef ≠ "" := by decide
  admissionDigest_ne : admissionDigest ≠ "" := by decide
  idempotencyKey_ne : idempotencyKey ≠ "" := by decide
  deriving DecidableEq, Repr

def PreparedAction.modelDump (p : PreparedAction) : Value :=
  .dict [("episode_id", .str p.episodeId), ("action_ref", .str p.actionRef),
    ("subject", p.subject.modelDump), ("payload", .dict p.payload),
    ("admission_digest", .str p.admissionDigest),
    ("planning_provenance_digest", .ofOption p.planningProvenanceDigest),
    ("idempotency_key", .str p.idempotencyKey)]

structure ReconciliationResult where
  disposition : ReconciliationDisposition
  standing : Standing
  observedStateDigest : Option String := none
  verificationRef : Option String := none
  retryAdmitted : Bool := false
  reason : Option String := none
  /-- `retry_requires_explicit_disposition`. -/
  retry : retryAdmitted = true → disposition = .retryAdmitted := by decide
  deriving DecidableEq, Repr

/-- Admission of a prepared action against a grant. -/
structure AdmissionResult where
  admitted : Bool
  reason : String
  deriving DecidableEq, Repr

def AdmissionResult.refuse (code : RefusalCode) : AdmissionResult := ⟨false, code.value⟩

/-- `a or b` of two optional strings. -/
def orElseTruthy (a b : Option String) : Option String :=
  match a with
  | none | some "" => b
  | some s => some s

/-- `admit_execution` at a moment. -/
def admitExecution (action : ActionDefinition) (prepared : PreparedAction)
    (grant : ExecutionGrant) (currentRevision : Option String) (moment : ℤ) : AdmissionResult :=
  if grant.expiresAt.any fun expiry => expiry.instant ≤ moment then .refuse .policyRefused
  else if prepared.actionRef ≠ action.semanticId ∨ grant.actionRef ≠ action.semanticId then
    .refuse .identityRefused
  else if grant.capabilityRef ≠ action.capabilityRef then .refuse .capabilityRefused
  else if prepared.subject.semanticId ≠ grant.subject.semanticId then .refuse .identityRefused
  else if prepared.subject.providerRef ≠ grant.subject.providerRef then .refuse .identityRefused
  else if grant.scopeRefs ≠ [] ∧ ¬ (prepared.subject.semanticId ∈ grant.scopeRefs ∨
      prepared.subject.providerRef ∈ grant.scopeRefs) then
    .refuse .authorityRefused
  else if grant.subject.revision ≠ none ∧ prepared.subject.revision ≠ none ∧
      grant.subject.revision ≠ prepared.subject.revision then
    .refuse .revisionMismatchRefused
  else if currentRevision ≠ none ∧
      orElseTruthy grant.subject.revision prepared.subject.revision ≠ none ∧
      currentRevision ≠ orElseTruthy grant.subject.revision prepared.subject.revision then
    .refuse .revisionMismatchRefused
  else if ExpectedEffect.pyEqAll grant.intendedEffects action.expectedEffects = false then
    .refuse .preconditionRefused
  else ⟨true, "ADMITTED"⟩

/-- What an admission closes : the identities of the action, the capability and the
subject. -/
structure AdmissionClosed (action : ActionDefinition) (prepared : PreparedAction)
    (grant : ExecutionGrant) : Prop where
  preparedAction : prepared.actionRef = action.semanticId
  grantAction : grant.actionRef = action.semanticId
  capability : grant.capabilityRef = action.capabilityRef
  semanticId : prepared.subject.semanticId = grant.subject.semanticId
  providerRef : prepared.subject.providerRef = grant.subject.providerRef

theorem admissionClosed_of_admitted {action : ActionDefinition} {prepared : PreparedAction}
    {grant : ExecutionGrant} {currentRevision : Option String} {moment : ℤ}
    (h : (admitExecution action prepared grant currentRevision moment).admitted = true) :
    AdmissionClosed action prepared grant := by
  unfold admitExecution at h
  split at h
  · cases h
  split at h
  · cases h
  rename_i hidentity
  obtain ⟨hprepared, hgrant⟩ := not_or.mp hidentity
  split at h
  · cases h
  rename_i hcapability
  split at h
  · cases h
  rename_i hsemantic
  split at h
  · cases h
  rename_i hprovider
  exact ⟨not_not.mp hprepared, not_not.mp hgrant, not_not.mp hcapability, not_not.mp hsemantic,
    not_not.mp hprovider⟩

/-- `admit_retry` : a candidate only after an execution without effect of an idempotent
action. -/
def admitRetry (action : ActionDefinition) (reconciliation : ReconciliationResult) :
    ReconciliationResult :=
  let refused : ReconciliationResult :=
    { disposition := .retryRefused, standing := .refused,
      observedStateDigest := reconciliation.observedStateDigest,
      verificationRef := reconciliation.verificationRef,
      reason := some RefusalCode.unsafeRetryRefused.value, retry := by simp }
  if reconciliation.disposition ≠ .noEffect then refused
  else if action.idempotency ≠ .idempotent ∧ action.idempotency ≠ .conditionallyIdempotent then
    refused
  else
    { disposition := .retryAdmitted, standing := .candidate,
      observedStateDigest := reconciliation.observedStateDigest,
      verificationRef := reconciliation.verificationRef, retryAdmitted := true,
      reason := some "RETRY_CANDIDATE_ADMITTED_AUTHORITY_STILL_REQUIRED", retry := by simp }

end GymAct
