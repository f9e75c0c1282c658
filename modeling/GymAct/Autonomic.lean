import GymAct.CrownRuntime
import GymAct.Fallible
import GymAct.Harness

/-!
# The autonomic controller

`AutonomicController` of `autonomic.py` : one attempt at a consequence, from a materialized
episode through the choice of a capability, a grant of the issuer and an execution by the
broker, to a teardown. The runtime, the issuer and the broker are outside (`ControllerCall`)
and any of their calls can raise.

`_finish` tears the episode down, and `run` calls it from every exit it has foreseen. Nothing
guards the way there : `cleansUp_iff` says exactly which runs reach it.
-/

namespace GymAct

open Coop Coop.Prog

/-! ## Records -/

inductive AutonomicPhase
  | monitor | analyze | plan | execute | knowledge
  deriving DecidableEq, Repr

inductive FailureClass
  | none | configuration | authority | dependency | capability | execution | verification | uncertain
  deriving DecidableEq, Repr

structure AutonomicPhaseRecord where
  phase : AutonomicPhase
  standing : Standing
  reason : String
  evidenceRefs : List String := []
  deriving DecidableEq, Repr

structure AutonomicKnowledge where
  failureClass : FailureClass
  preStateDigest : Option String := none
  postStateDigest : Option String := none
  verificationRef : Option String := none
  verified : Bool := false
  worldChanged : Option Bool := none
  evidenceRefs : List String := []
  deriving DecidableEq, Repr

/-- The answer of a grant issuer. -/
structure GrantIssue where
  standing : Standing
  grant : Option ExecutionGrant := none
  reason : String
  /-- `ALIVE_GRANT_ISSUE_REQUIRES_GRANT`. -/
  alive_grant : standing = .alive → grant ≠ none

/-- One attempt against one provider world. -/
structure ConsequenceRequest where
  requestId : String
  provider : String
  scenario : Option String := none
  config : Payload := []
  capabilityRef : Option String := none
  capabilityBinding : Option String := none
  payload : Payload := []
  expected : Payload := []
  authorityRef : Option String := none
  subjectRevision : Option String := none
  actionRef : Option String := none
  inputSchema : Payload := [("type", .str "object")]
  idempotencyKey : String
  requireVerification : Bool := true
  requestId_ne : requestId ≠ "" := by decide
  provider_ne : provider ≠ "" := by decide
  idempotencyKey_ne : idempotencyKey ≠ "" := by decide
  /-- `CAPABILITY_SELECTOR_MUST_USE_REF_OR_BINDING_NOT_BOTH`. -/
  selector : capabilityRef = none ∨ capabilityBinding = none := by decide
  /-- `VERIFIED_AUTONOMIC_EXECUTION_REQUIRES_EXPECTED_STATE`. -/
  verifiable : requireVerification = true → expected ≠ [] := by decide

structure AutonomicOutcome where
  requestId : String
  provider : String
  standing : Standing
  episodeId : Option String := none
  capabilityRef : Option String := none
  reason : String
  verified : Bool := false
  cleanupStanding : Option Standing := none
  phaseRecords : List AutonomicPhaseRecord
  knowledge : AutonomicKnowledge
  receiptIds : List String := []

/-! ## The outside -/

/-- The calls of a controller. -/
inductive ControllerCall
  | materialize (intent : MaterializationIntent)
  | observe (episodeId : String)
  | capabilities (episodeId : String)
  | issue (action : ActionDefinition) (prepared : PreparedAction) (admittedObservationRef : String)
      (authorityRef : Option String)
  | execute (request : BrokerRequest)
  | teardown (episodeId : String) (authorityRef : Option String)
  | episodeReceipts (episodeId : String)
  deriving DecidableEq

@[reducible] def ControllerCall.Value : ControllerCall → Type
  | materialize _ => MaterializationResult
  | observe _ => Observation
  | capabilities _ => List Capability
  | issue .. => GrantIssue
  | execute _ => VerifiedTransition
  | teardown .. => Receipt
  | episodeReceipts _ => List Receipt

/-- A run has no state but its variables. -/
@[reducible] def controllerSig : Sig where
  State := Unit
  Lock := Empty
  Call := ControllerCall
  Reply c := Except Exc c.Value
  Err := Exc

abbrev ControllerM (α : Type) := Prog controllerSig α

/-- The packages and the Python texts a controller uses. -/
structure ControllerEnv where
  canon : Canon
  /-- `jsonschema.validate`. -/
  validate : (inst schema : Payload) → Except PyError Unit
  /-- `str.upper`. -/
  upper : String → String
  /-- A grant issuer is injected. -/
  issuer : Bool

namespace AutonomicController

variable (E : ControllerEnv) (request : ConsequenceRequest)

/-- An awaited call of the runtime, the issuer or the broker. -/
def call (c : ControllerCall) : ControllerM c.Value := do
  let r ← awaitCall (S := controllerSig) c
  Prog.lift r

/-- A call that is answered at once. -/
def callNow (c : ControllerCall) : ControllerM c.Value := do
  let r ← askCall (S := controllerSig) c
  Prog.lift r

/-! ## Choices -/

/-- The capabilities a request selects. -/
def matching (capabilities : List Capability) : List Capability :=
  let doCapabilities := capabilities.filter fun c => c.consequence = .do
  match request.capabilityRef, request.capabilityBinding with
  | some ref, _ => doCapabilities.filter fun c => c.iri = ref
  | none, some binding => doCapabilities.filter fun c => c.binding = binding
  | none, none => doCapabilities

/-- `_select_capability`. -/
def selectCapability (capabilities : List Capability) : Option Capability × Standing × String :=
  match matching request capabilities with
  | [] => (none, .unsupported, "NO_MATCHING_DO_CAPABILITY")
  | [capability] => (some capability, .structural, "CAPABILITY_SELECTED")
  | _ => (none, .requiresConfiguration, "AMBIGUOUS_DO_CAPABILITY")

/-- `needle in text`. -/
def contains (text needle : String) : Bool := needle.toList <:+: text.toList

/-- `_failure_class`. -/
def failureClass (standing : Standing) (reason : String) : FailureClass :=
  let upper := E.upper reason
  if standing = .alive then .none
  else if standing = .uncertain then .uncertain
  else if contains upper "AUTHORITY" || contains upper "GRANT" || contains upper "POLICY" then
    .authority
  else if contains upper "CONFIG" || contains upper "AMBIGUOUS" then .configuration
  else if contains upper "CAPABILITY" || contains upper "UNSUPPORTED" then .capability
  else if contains upper "VERIFY" || contains upper "POSTCONDITION" then .verification
  else if contains upper "MISSING" || contains upper "UNAVAILABLE" || contains upper "DEPEND" then
    .dependency
  else .execution

/-! ## Finishing -/

/-- The arguments of `_finish`, besides the request and the materialization. -/
structure Ending where
  standing : Standing
  reason : String
  records : List AutonomicPhaseRecord
  capabilityRef : Option String := none
  verified : Bool := false
  preStateDigest : Option String := none
  postStateDigest : Option String := none
  verificationRef : Option String := none
  worldChanged : Option Bool := none

/-- The teardown of `_finish`, whose exception is a standing. -/
def cleanup : Option String → ControllerM (Option Standing)
  | none => pure none
  | some episodeId => do
    match ← attempt (call (.teardown episodeId request.authorityRef)) with
    | .ok receipt => pure (some receipt.standing)
    | .error _ => pure (some .blocked)

/-- `if ref not in evidence: evidence.append(ref)`, for each. -/
def addEvidence (evidence refs : List String) : List String :=
  refs.foldl (fun evidence ref => if ref ∈ evidence then evidence else evidence ++ [ref]) evidence

/-- `_finish`. -/
def finish (materialization : MaterializationResult) (ending : Ending) :
    ControllerM AutonomicOutcome := do
  let episodeId := materialization.episode.map Episode.episodeId
  let cleanupStanding ← cleanup request episodeId
  let receipts ← match episodeId with
    | none => pure []
    | some episodeId => callNow (.episodeReceipts episodeId)
  let evidenceRefs := addEvidence (addEvidence [] (receipts.map Receipt.receiptId))
    (ending.records.flatMap AutonomicPhaseRecord.evidenceRefs)
  pure {
    requestId := request.requestId, provider := request.provider, standing := ending.standing,
    episodeId, capabilityRef := ending.capabilityRef, reason := ending.reason,
    verified := ending.verified, cleanupStanding, phaseRecords := ending.records,
    knowledge := {
      failureClass := failureClass E ending.standing ending.reason
      preStateDigest := ending.preStateDigest, postStateDigest := ending.postStateDigest
      verificationRef := ending.verificationRef, verified := ending.verified
      worldChanged := ending.worldChanged, evidenceRefs }
    receiptIds := evidenceRefs }

/-! ## The plan -/

/-- `a or b`. -/
def orElse (a : Option String) (b : String) : String :=
  match a with
  | none => b
  | some s => if s = "" then b else s

theorem orElse_ne {a : Option String} {b : String} (hb : b ≠ "") : orElse a b ≠ "" := by
  unfold orElse
  split
  · exact hb
  · split
    · exact hb
    · next h => exact h

/-- A field of `min_length=1` is empty. -/
def emptyField (model : String) : Exc := .provider ⟨"ValidationError", model⟩

/-- `SubjectRef(…)` of `run`. -/
def subjectOf (episode : Episode) : Except Exc SubjectRef :=
  if h : episode.environmentId ≠ "" then
    .ok ⟨episode.environmentId, request.provider, request.subjectRevision, h, request.provider_ne⟩
  else .error (emptyField "SubjectRef")

/-- The semantic id of the action. -/
def actionRef (capability : Capability) : String :=
  orElse request.actionRef
    ("urn:gymact:autonomic-action:" ++ request.provider ++ ":" ++ capability.binding)

theorem actionRef_ne (capability : Capability) : actionRef request capability ≠ "" :=
  orElse_ne fun h => by simpa using congrArg String.toList h

/-- `ActionDefinition(…)` of `run`. -/
def actionOf (capability : Capability) : Except Exc ActionDefinition :=
  if h : capability.iri ≠ "" then
    .ok {
      semanticId := actionRef request capability, providerRef := request.provider
      capabilityRef := capability.iri, subjectType := "urn:gymact:Environment"
      inputSchema := request.inputSchema
      expectedEffects := [⟨"urn:gymact:predicate:partial-state-equals", request.expected, by decide⟩]
      verification :=
        { kind := .exactState, observerRef := "urn:gymact:observer:environment-verify",
          expected := request.expected, quorum_of_kind := exactState_quorum }
      idempotency := .conditionallyIdempotent, idempotencyFields := ["idempotency_key"]
      reversal := .unknown, standing := .structural
      semanticId_ne := actionRef_ne request capability, providerRef_ne := request.provider_ne
      capabilityRef_ne := h, conditional := by simp, compensation := unknown_compensation, alive := nofun
      adopted := nofun }
  else .error (emptyField "ActionDefinition")

/-- The admission digest of the action. -/
def admissionDigest (initial : Observation) (capability : Capability) : Except PyError String :=
  E.canon.digest (.dict [("request_id", .str request.requestId),
    ("observation", .str initial.stateDigest), ("action", .str (actionRef request capability)),
    ("payload", .dict request.payload)])

/-- `construct_prepared_action`. -/
def constructPreparedAction (action : ActionDefinition) (episodeId : String) (subject : SubjectRef)
    (payload : Payload) (admissionDigest idempotencyKey : String)
    (planningProvenanceDigest : Option String) : Except Exc PreparedAction :=
  match E.validate payload action.inputSchema with
  | .error e =>
    if e.type = "ImportError" then .error (runtimeError "JSONSCHEMA_RUNTIME_REQUIRED")
    else if e.type = "ValidationError" then .error (.valueError "PRECONDITION_REFUSED:INPUT_SCHEMA")
    else .error (.provider e)
  | .ok () =>
    if h : episodeId ≠ "" ∧ admissionDigest ≠ "" ∧ idempotencyKey ≠ "" then
      .ok { episodeId, actionRef := action.semanticId, subject, payload, admissionDigest,
            planningProvenanceDigest, idempotencyKey, episodeId_ne := h.1,
            actionRef_ne := action.semanticId_ne, admissionDigest_ne := h.2.1,
            idempotencyKey_ne := h.2.2 }
    else .error (emptyField "PreparedAction")

/-- The action and the intent that `run` constructs. -/
def planOf (episode : Episode) (initial : Observation) (capability : Capability) :
    Except Exc (ActionDefinition × PreparedAction) := do
  let subject ← subjectOf request episode
  let action ← actionOf request capability
  let admission ← (admissionDigest E request initial capability).mapError .canonicalization
  let prepared ← constructPreparedAction E action episode.episodeId subject request.payload admission
    request.idempotencyKey none
  return (action, prepared)

/-! ## The run -/

/-- `create_episode` constructs its intent. -/
def materializationIntent : Except Exc MaterializationIntent :=
  let intent : MaterializationIntent :=
    { provider := request.provider, scenario := request.scenario, config := request.config,
      authorityRef := request.authorityRef, idempotencyKey := request.idempotencyKey ++ ":materialize" }
  match E.canon.canonicalBytes intent.modelDump with
  | .error _ => .error (.valueError "INPUT_NOT_RFC8785_CANONICAL")
  | .ok _ => .ok intent

/-- The ending of a run whose action was not executed. -/
def unexecuted (standing : Standing) (reason : String) (records : List AutonomicPhaseRecord)
    (capabilityRef : Option String) (initial : Observation) : Ending :=
  { standing, reason, records, capabilityRef, preStateDigest := some initial.stateDigest,
    postStateDigest := some initial.stateDigest, worldChanged := some false }

/-- The ending of a run whose action was executed. -/
def executed (capability : Capability) (initial : Observation)
    (records : List AutonomicPhaseRecord) (transition : VerifiedTransition) : Ending :=
  let executeReason := orElse transition.receipt.reason "BRCE_EXECUTION_COMPLETED"
  let verified := transition.verification.any VerificationResult.passed
  let knowledgeReason :=
    if transition.standing = .alive ∧ verified = true then "VERIFIED_CONSEQUENCE_ADMITTED"
    else executeReason
  { standing := transition.standing, reason := knowledgeReason
    records := records ++
      [⟨.execute, transition.standing, executeReason, [transition.receipt.receiptId]⟩,
        ⟨.knowledge, transition.standing, knowledgeReason, [transition.receipt.receiptId]⟩]
    capabilityRef := some capability.iri, verified, preStateDigest := some initial.stateDigest
    postStateDigest := some (match transition.verification, transition.actuation.observation with
      | some verification, _ => verification.stateDigest
      | none, some observation => observation.stateDigest
      | none, none => initial.stateDigest)
    verificationRef := transition.verification.map VerificationResult.verificationId
    worldChanged := transition.receipt.worldChanged }

/-- What the broker is asked. -/
def brokerRequest (action : ActionDefinition) (prepared : PreparedAction) (grant : ExecutionGrant) :
    BrokerRequest :=
  { action, prepared, grant, currentRevision := request.subjectRevision,
    expected := request.expected }

/-- What the issuer is asked. -/
def issueCall (action : ActionDefinition) (prepared : PreparedAction) (initial : Observation) :
    ControllerCall :=
  .issue action prepared ("urn:gymact:observation:" ++ initial.stateDigest) request.authorityRef

/-- The grant of an issue that may be used. -/
def usableGrant (issue : GrantIssue) : Option ExecutionGrant :=
  if issue.standing = .alive then issue.grant else none

/-- From the capability to an ending. -/
def pursue (episode : Episode) (initial : Observation) (capability : Capability)
    (records : List AutonomicPhaseRecord) : ControllerM Ending := do
  let (action, prepared) ← Prog.lift (planOf E request episode initial capability)
  if E.issuer = false then
    pure (unexecuted .refused "EXECUTION_GRANT_ISSUER_REQUIRED"
      (records ++ [⟨.plan, .refused, "EXECUTION_GRANT_ISSUER_REQUIRED", []⟩]) (some capability.iri)
      initial)
  else
    let issue ← call (issueCall request action prepared initial)
    let records := records ++ [⟨.plan, issue.standing, issue.reason, []⟩]
    match usableGrant issue with
    | none => pure (unexecuted issue.standing issue.reason records (some capability.iri) initial)
    | some grant =>
      let transition ← call (.execute (brokerRequest request action prepared grant))
      pure (executed capability initial records transition)

/-- The first look at the episode. -/
def firstLook (materialization : MaterializationResult) (episode : Episode) :
    ControllerM Observation :=
  match materialization.observation with
  | some observation => pure observation
  | none => call (.observe episode.episodeId)

/-- From the first look to an ending. -/
def analyze (materialization : MaterializationResult) (episode : Episode) (initial : Observation)
    (records : List AutonomicPhaseRecord) : ControllerM Ending := do
  let capabilities ← callNow (.capabilities episode.episodeId)
  let (capability, standing, reason) := selectCapability request capabilities
  let records := records ++ [⟨.analyze, standing, reason, [materialization.receipt.receiptId]⟩]
  match capability with
  | none => pure (unexecuted standing reason records none initial)
  | some capability => pursue E request episode initial capability records

/-- From the episode to an ending. -/
def attend (materialization : MaterializationResult) (episode : Episode)
    (records : List AutonomicPhaseRecord) : ControllerM Ending := do
  let initial ← firstLook materialization episode
  analyze E request materialization episode initial records

/-- `run`. -/
def run : ControllerM AutonomicOutcome := do
  let intent ← Prog.lift (materializationIntent E request)
  let materialization ← call (.materialize intent)
  let receipt := materialization.receipt
  let records : List AutonomicPhaseRecord :=
    [⟨.monitor, materialization.standing, orElse receipt.reason "WORLD_MATERIALIZED",
      [receipt.receiptId]⟩]
  let ending ← match materialization.accepted, materialization.episode with
    | true, some episode => attend E request materialization episode records
    | _, _ => pure { standing := materialization.standing, records,
                     reason := orElse receipt.reason "MATERIALIZATION_NOT_ACCEPTED" }
  finish E request materialization ending

end AutonomicController

/-! ## Cleanup -/

/-- The calls between the materialization of an episode and its teardown. -/
def ControllerCall.exposed : ControllerCall → Bool
  | observe _ | capabilities _ | issue .. | execute _ => true
  | materialize _ | teardown .. | episodeReceipts _ => false

/-- The calls of `_finish`. -/
def ControllerCall.cleans : ControllerCall → Bool
  | teardown .. | episodeReceipts _ => true
  | _ => false

/-- A teardown was attempted of every episode that was materialized. -/
def CleansUp (log : Log controllerSig) : Prop :=
  ∀ intent materialization episode,
    ⟨.materialize intent, .ok materialization⟩ ∈ log → materialization.episode = some episode →
      ∃ authorityRef r, ⟨.teardown episode.episodeId authorityRef, r⟩ ∈ log

/-- The observation a run begins with. -/
def LookedAt (log : Log controllerSig) (materialization : MaterializationResult) (episode : Episode)
    (initial : Observation) : Prop :=
  materialization.observation = some initial ∨
    materialization.observation = none ∧ ⟨.observe episode.episodeId, .ok initial⟩ ∈ log

namespace AutonomicController

variable (E : ControllerEnv) (request : ConsequenceRequest)

/-- A call raises while an episode is materialized, or the action of the capability that is
selected cannot be constructed. -/
inductive Unforeseen (log : Log controllerSig) : Prop
  | raised (c : ControllerCall) (e : Exc) (hc : c.exposed = true) (h : ⟨c, .error e⟩ ∈ log)
  | unplanned (intent : MaterializationIntent) (materialization : MaterializationResult)
      (episode : Episode) (initial : Observation) (capabilities : List Capability)
      (capability : Capability) (e : Exc)
      (hmaterialized : ⟨.materialize intent, .ok materialization⟩ ∈ log)
      (hepisode : materialization.episode = some episode)
      (hlooked : LookedAt log materialization episode initial)
      (hcapabilities : ⟨.capabilities episode.episodeId, .ok capabilities⟩ ∈ log)
      (hselected : (selectCapability request capabilities).1 = some capability)
      (hplan : planOf E request episode initial capability = .error e)

section Attend

variable {E : ControllerEnv} {request : ConsequenceRequest}
  {A : (c : ControllerCall) → Except Exc c.Value → Prop} {s : Unit} {log : Log controllerSig}

@[simp] theorem post_call (c : ControllerCall)
    {R : Except Exc c.Value → Unit → Log controllerSig → Prop} :
    post (S := controllerSig) A R (call c) s log ↔ ∀ r, A c r → R r s (log ++ [⟨c, r⟩]) := Iff.rfl

@[simp] theorem post_callNow (c : ControllerCall)
    {R : Except Exc c.Value → Unit → Log controllerSig → Prop} :
    post (S := controllerSig) A R (callNow c) s log ↔ ∀ r, A c r → R r s (log ++ [⟨c, r⟩]) := Iff.rfl

end Attend

/-- How a run comes by its first observation. -/
def FirstLook (materialization : MaterializationResult) (episode : Episode) (initial : Observation)
    (looked : Log controllerSig) : Prop :=
  materialization.observation = some initial ∧ looked = [] ∨
    materialization.observation = none ∧ looked = [⟨.observe episode.episodeId, .ok initial⟩]

/-- The calls that follow the choice of a capability, answered. -/
def Acted (rest : Log controllerSig) : Prop :=
  ∀ c r, ⟨c, r⟩ ∈ rest → (c.exposed = true ∧ (∃ v, r = .ok v) ∧ (∀ id, c ≠ .observe id) ∧
    ∀ id, c ≠ .capabilities id)

/-- How an episode ends : by an exception where something was not foreseen. -/
def Ended (intent : MaterializationIntent) (materialization : MaterializationResult)
    (r : Except Exc Ending) (log : Log controllerSig) : Prop :=
  (∃ more, log = ⟨.materialize intent, .ok materialization⟩ :: more ∧
    ∀ c r, ⟨c, r⟩ ∈ more → c.exposed = true) ∧
  ((∃ e, r = .error e) ↔ Unforeseen E request log)

section Ended

variable {E : ControllerEnv} {request : ConsequenceRequest} {intent : MaterializationIntent}
  {materialization : MaterializationResult} {episode : Episode} {initial : Observation}
  {capabilities : List Capability} {looked rest : Log controllerSig}

theorem FirstLook.exposed (h : FirstLook materialization episode initial looked) :
    ∀ c r, ⟨c, r⟩ ∈ looked → c.exposed = true ∧ ∃ v, r = .ok v := by
  rintro c r hc
  rcases h with ⟨-, rfl⟩ | ⟨-, rfl⟩
  · cases hc
  · cases List.mem_singleton.mp hc
    exact ⟨rfl, initial, rfl⟩

/-- Where the calls are answered and the action is constructed, nothing is unforeseen. -/
theorem not_unforeseen (hepisode : materialization.episode = some episode)
    (hlook : FirstLook materialization episode initial looked) (hrest : Acted rest)
    (hplan : ∀ capability, (selectCapability request capabilities).1 = some capability →
      ∃ p, planOf E request episode initial capability = .ok p) :
    ¬ Unforeseen E request (⟨.materialize intent, .ok materialization⟩ ::
      (looked ++ ⟨.capabilities episode.episodeId, .ok capabilities⟩ :: rest)) := by
  have hmem {c : ControllerCall} {r : Except Exc c.Value}
      (h : (⟨c, r⟩ : Σ c : ControllerCall, Except Exc c.Value) ∈
        (⟨.materialize intent, .ok materialization⟩ ::
          (looked ++ ⟨.capabilities episode.episodeId, .ok capabilities⟩ :: rest) :
            Log controllerSig)) :
      (⟨c, r⟩ : Σ c : ControllerCall, Except Exc c.Value) =
          ⟨.materialize intent, .ok materialization⟩ ∨
        ⟨c, r⟩ ∈ looked ∨ (⟨c, r⟩ : Σ c : ControllerCall, Except Exc c.Value) =
          ⟨.capabilities episode.episodeId, .ok capabilities⟩ ∨ ⟨c, r⟩ ∈ rest := by
    rcases List.mem_cons.mp h with h | h
    · exact .inl h
    · rcases List.mem_append.mp h with h | h
      · exact .inr (.inl h)
      · exact .inr (.inr (List.mem_cons.mp h))
  rintro (⟨c, e, hc, h⟩ | ⟨intent', m, episode', initial', capabilities', capability, e, hm, hepisode',
    hlooked, hcapabilities, hselected, hfailed⟩)
  · rcases hmem h with h | h | h | h
    · cases h
    · obtain ⟨-, v, hv⟩ := hlook.exposed c _ h
      cases hv
    · cases h
    · obtain ⟨-, ⟨v, hv⟩, -⟩ := hrest c _ h
      cases hv
  · obtain rfl : m = materialization := by
      rcases hmem hm with h | h | h | h
      · cases h
        rfl
      · obtain ⟨hc, -⟩ := hlook.exposed _ _ h
        cases hc
      · cases h
      · obtain ⟨hc, -⟩ := hrest _ _ h
        cases hc
    obtain rfl : episode = episode' := Option.some.inj (hepisode.symm.trans hepisode')
    obtain rfl : capabilities' = capabilities := by
      rcases hmem hcapabilities with h | h | h | h
      · cases h
      · rcases hlook with ⟨-, rfl⟩ | ⟨-, rfl⟩
        · cases h
        · cases List.mem_singleton.mp h
      · cases h
        rfl
      · obtain ⟨-, -, -, hc⟩ := hrest _ _ h
        exact (hc _ rfl).elim
    obtain rfl : initial' = initial := by
      rcases hlook with ⟨hseen, rfl⟩ | ⟨hunseen, rfl⟩
      · rcases hlooked with h | ⟨h, -⟩
        · exact Option.some.inj (h.symm.trans hseen)
        · rw [hseen] at h
          cases h
      · rcases hlooked with h | ⟨-, h⟩
        · rw [hunseen] at h
          cases h
        · rcases hmem h with h | h | h | h
          · cases h
          · cases List.mem_singleton.mp h
            rfl
          · cases h
          · obtain ⟨-, -, hc, -⟩ := hrest _ _ h
            exact (hc _ rfl).elim
    obtain ⟨p, hp⟩ := hplan capability hselected
    rw [hp] at hfailed
    cases hfailed

variable (hepisode : materialization.episode = some episode)
  (hlook : FirstLook materialization episode initial looked)

/-- The log of an episode whose capabilities were listed. -/
def lookedUp (intent : MaterializationIntent) (materialization : MaterializationResult)
    (episode : Episode) (capabilities : List Capability) (looked : Log controllerSig) :
    Log controllerSig :=
  ⟨.materialize intent, .ok materialization⟩ ::
    (looked ++ [⟨.capabilities episode.episodeId, .ok capabilities⟩])

theorem lookedUp_append (rest : Log controllerSig) :
    lookedUp intent materialization episode capabilities looked ++ rest =
      ⟨.materialize intent, .ok materialization⟩ ::
        (looked ++ ⟨.capabilities episode.episodeId, .ok capabilities⟩ :: rest) := by
  simp [lookedUp]

include hlook in
theorem exposed_lookedUp (intent : MaterializationIntent) (capabilities : List Capability)
    (hrest : ∀ c r, ⟨c, r⟩ ∈ rest → c.exposed = true) :
    ∃ more, lookedUp intent materialization episode capabilities looked ++ rest =
        ⟨.materialize intent, .ok materialization⟩ :: more ∧
      ∀ c r, ⟨c, r⟩ ∈ more → c.exposed = true := by
  refine ⟨_, lookedUp_append rest, fun c r h => ?_⟩
  rcases List.mem_append.mp h with h | h
  · exact (hlook.exposed c r h).1
  · rcases List.mem_cons.mp h with h | h
    · cases h
      rfl
    · exact hrest c r h

include hepisode hlook in
theorem ended_of_acted {ending : Ending} (hrest : Acted rest)
    (hplan : ∀ capability, (selectCapability request capabilities).1 = some capability →
      ∃ p, planOf E request episode initial capability = .ok p) :
    Ended E request intent materialization (.ok ending)
      (lookedUp intent materialization episode capabilities looked ++ rest) := by
  refine ⟨exposed_lookedUp hlook intent capabilities fun c r h => (hrest c r h).1, fun ⟨e, he⟩ => (by cases he), ?_⟩
  rw [lookedUp_append]
  exact fun h => (not_unforeseen hepisode hlook hrest hplan h).elim

/-- A call that raises is not foreseen. -/
theorem ended_of_raised {more : Log controllerSig} {c : ControllerCall} {e : Exc}
    (hmore : ∀ c r, ⟨c, r⟩ ∈ more → c.exposed = true) (hc : c.exposed = true) :
    Ended E request intent materialization (.error e)
      (⟨.materialize intent, .ok materialization⟩ :: (more ++ [⟨c, .error e⟩])) := by
  refine ⟨⟨_, rfl, fun c' r h => ?_⟩, fun _ => .raised c e hc (by simp), fun _ => ⟨e, rfl⟩⟩
  rcases List.mem_append.mp h with h | h
  · exact hmore c' r h
  · cases List.mem_singleton.mp h
    exact hc

include hlook in
theorem ended_of_raised_acting {c : ControllerCall} {e : Exc} (hrest : Acted rest)
    (hc : c.exposed = true) :
    Ended E request intent materialization (.error e)
      (lookedUp intent materialization episode capabilities looked ++ (rest ++ [⟨c, .error e⟩])) := by
  obtain ⟨more, hlog, hmore⟩ :=
    exposed_lookedUp hlook intent capabilities fun c r h => (hrest c r h).1
  rw [← List.append_assoc, hlog, List.cons_append]
  exact ended_of_raised hmore hc

theorem acted_nil : Acted [] := fun _ _ h => (List.not_mem_nil h).elim

theorem acted_append {log log' : Log controllerSig} (h : Acted log) (h' : Acted log') :
    Acted (log ++ log') := by
  intro c r hc
  rcases List.mem_append.mp hc with hc | hc
  · exact h c r hc
  · exact h' c r hc

theorem acted_issue {action : ActionDefinition} {prepared : PreparedAction} {ref : String}
    {authorityRef : Option String} (issue : GrantIssue) :
    Acted [⟨.issue action prepared ref authorityRef, .ok issue⟩] := by
  intro c r h
  cases List.mem_singleton.mp h
  exact ⟨rfl, ⟨issue, rfl⟩, nofun, nofun⟩

theorem acted_execute {request : BrokerRequest} (transition : VerifiedTransition) :
    Acted [⟨.execute request, .ok transition⟩] := by
  intro c r h
  cases List.mem_singleton.mp h
  exact ⟨rfl, ⟨transition, rfl⟩, nofun, nofun⟩

include hepisode hlook in
/-- From the choice of a capability on. -/
theorem post_pursue {capability : Capability} {records : List AutonomicPhaseRecord} {s : Unit}
    (hselected : (selectCapability request capabilities).1 = some capability) :
    post (S := controllerSig) (fun _ _ => True)
      (fun r _ log => Ended E request intent materialization r log)
      (pursue E request episode initial capability records) s
      (lookedUp intent materialization episode capabilities looked) := by
  rw [pursue, post_bind, post_lift]
  cases hplan : planOf E request episode initial capability with
  | error e =>
    obtain ⟨more, hmore, hexposed⟩ :=
      exposed_lookedUp hlook intent capabilities fun c r h => (acted_nil c r h).1
    rw [List.append_nil] at hmore
    refine ⟨⟨more, hmore, hexposed⟩, fun _ => ?_, fun _ => ⟨e, rfl⟩⟩
    refine .unplanned intent materialization episode initial capabilities capability e ?_ hepisode ?_
      ?_ hselected hplan
    · simp [lookedUp]
    · rcases hlook with ⟨hseen, rfl⟩ | ⟨hunseen, rfl⟩
      · exact .inl hseen
      · exact .inr ⟨hunseen, by simp [lookedUp]⟩
    · simp [lookedUp]
  | ok p =>
    have hplanned : ∀ c, (selectCapability request capabilities).1 = some c →
        ∃ p, planOf E request episode initial c = .ok p := by
      intro c hc
      rw [← Option.some.inj (hselected.symm.trans hc)]
      exact ⟨p, hplan⟩
    obtain ⟨action, prepared⟩ := p
    rw [post_onOk]
    dsimp only
    split
    · rw [post_pure, ← List.append_nil (lookedUp ..)]
      exact ended_of_acted hepisode hlook acted_nil hplanned
    · rw [post_bind, post_call]
      rintro (e | issue) -
      · exact ended_of_raised_acting hlook acted_nil rfl
      · rw [post_onOk]
        dsimp only
        split
        · rw [post_pure]
          exact ended_of_acted hepisode hlook (acted_issue issue) hplanned
        · rw [post_bind, post_call]
          rintro (e | transition) -
          · rw [List.append_assoc]
            exact ended_of_raised_acting hlook (acted_issue issue) rfl
          · rw [post_onOk, post_pure, List.append_assoc]
            exact ended_of_acted hepisode hlook
              (acted_append (acted_issue issue) (acted_execute transition)) hplanned

include hepisode hlook in
/-- From the first look on. -/
theorem post_analyze {records : List AutonomicPhaseRecord} {s : Unit} :
    post (S := controllerSig) (fun _ _ => True)
      (fun r _ log => Ended E request intent materialization r log)
      (analyze E request materialization episode initial records) s
      (⟨.materialize intent, .ok materialization⟩ :: looked) := by
  rw [analyze, post_bind, post_callNow]
  rintro (e | capabilities) -
  · exact ended_of_raised (fun c r h => (hlook.exposed c r h).1) rfl
  · rw [post_onOk]
    rcases hselected : selectCapability request capabilities with ⟨_ | capability, standing, reason⟩
    · have hplanned : ∀ c, (selectCapability request capabilities).1 = some c →
          ∃ p, planOf E request episode initial c = .ok p := by
        intro c hc
        rw [hselected] at hc
        cases hc
      have hended (ending : Ending) : Ended E request intent materialization (.ok ending)
          (lookedUp intent materialization episode capabilities looked) := by
        rw [← List.append_nil (lookedUp ..)]
        exact ended_of_acted hepisode hlook acted_nil hplanned
      exact hended _
    · exact post_pursue hepisode hlook (congrArg Prod.fst hselected)

include hepisode in
/-- From a materialized episode to its ending. -/
theorem post_attend {records : List AutonomicPhaseRecord} {s : Unit} :
    post (S := controllerSig) (fun _ _ => True)
      (fun r _ log => Ended E request intent materialization r log)
      (attend E request materialization episode records) s
      [⟨.materialize intent, .ok materialization⟩] := by
  rw [attend, post_bind, firstLook]
  split
  · next initial hseen => exact post_analyze hepisode (.inl ⟨hseen, rfl⟩)
  · next hunseen =>
    refine (post_call (.observe episode.episodeId)).mpr ?_
    rintro (e | initial) -
    · exact ended_of_raised (fun _ _ h => (List.not_mem_nil h).elim) rfl
    · exact post_analyze hepisode (.inr ⟨hunseen, rfl⟩)

end Ended

/-- What `_finish` adds to a run. -/
def Finished (episode? : Option Episode) (log log' : Log controllerSig) : Prop :=
  ∃ tail, log' = log ++ tail ∧ (∀ c r, ⟨c, r⟩ ∈ tail → c.cleans = true) ∧
    ∀ episode, episode? = some episode →
      ∃ authorityRef r, ⟨.teardown episode.episodeId authorityRef, r⟩ ∈ tail

section Finish

variable {E : ControllerEnv} {request : ConsequenceRequest} {log log' : Log controllerSig}

theorem post_finish (materialization : MaterializationResult) (ending : Ending) {s : Unit} :
    post (S := controllerSig) (fun _ _ => True)
      (fun _ _ log' => Finished materialization.episode log log')
      (finish E request materialization ending) s log := by
  unfold finish
  cases hepisode : materialization.episode with
  | none =>
    exact ⟨[], (List.append_nil log).symm, fun _ _ h => (List.not_mem_nil h).elim, nofun⟩
  | some episode =>
    have hreceipts (tried : Except Exc Receipt) (r : Except Exc (List Receipt)) :
        Finished (some episode) log (log ++ [⟨.teardown episode.episodeId request.authorityRef, tried⟩]
          ++ [⟨.episodeReceipts episode.episodeId, r⟩]) := by
      refine ⟨_, List.append_assoc .., fun c r h => ?_, fun episode' h => ?_⟩
      · rcases List.mem_cons.mp h with h | h
        · cases h
          rfl
        · cases List.mem_singleton.mp h
          rfl
      · cases h
        exact ⟨request.authorityRef, tried, List.mem_cons_self⟩
    simp only [Option.map_some, cleanup, post_bind, post_attempt, post_onOk]
    rintro (e | receipt) - <;> rintro (e' | receipts) -
    all_goals exact hreceipts _ _

/-- What `_finish` calls was not in the way of it. -/
theorem unforeseen_append {tail : Log controllerSig} (htail : ∀ c r, ⟨c, r⟩ ∈ tail → c.cleans = true) :
    Unforeseen E request (log ++ tail) ↔ Unforeseen E request log := by
  have hmem {c : ControllerCall} {r : Except Exc c.Value} (hc : c.cleans = false)
      (h : (⟨c, r⟩ : Σ c : ControllerCall, Except Exc c.Value) ∈ log ++ tail) : ⟨c, r⟩ ∈ log := by
    rcases List.mem_append.mp h with h | h
    · exact h
    · have htrue := htail c r h
      rw [hc] at htrue
      cases htrue
  constructor
  · rintro (⟨c, e, hc, h⟩ | ⟨intent, m, episode, initial, capabilities, capability, e, hm, hepisode,
      hlooked, hcapabilities, hselected, hplan⟩)
    · exact .raised c e hc (hmem (by cases c <;> first | rfl | cases hc) h)
    · exact .unplanned intent m episode initial capabilities capability e (hmem rfl hm) hepisode
        (hlooked.imp_right fun h => ⟨h.1, hmem rfl h.2⟩) (hmem rfl hcapabilities) hselected hplan
  · rintro (⟨c, e, hc, h⟩ | ⟨intent, m, episode, initial, capabilities, capability, e, hm, hepisode,
      hlooked, hcapabilities, hselected, hplan⟩)
    · exact .raised c e hc (List.mem_append_left tail h)
    · exact .unplanned intent m episode initial capabilities capability e
        (List.mem_append_left tail hm) hepisode
        (hlooked.imp_right fun h => ⟨h.1, List.mem_append_left tail h.2⟩)
        (List.mem_append_left tail hcapabilities) hselected hplan

/-- Without an episode nothing is unforeseen. -/
theorem not_unforeseen_of_unexposed (h : ∀ c r, ⟨c, r⟩ ∈ log → c.exposed = false) :
    ¬ Unforeseen E request log := by
  rintro (⟨c, e, hc, hmem⟩ | ⟨_, _, _, _, _, _, _, -, -, -, hmem, -, -⟩)
  · rw [h c _ hmem] at hc
    cases hc
  · cases h _ _ hmem

variable {intent : MaterializationIntent} {materialization : MaterializationResult}
  {more : Log controllerSig}

theorem mem_materialize (hmore : ∀ c r, ⟨c, r⟩ ∈ more → c.exposed = true ∨ c.cleans = true)
    {intent' : MaterializationIntent} {m : MaterializationResult}
    (h : ⟨.materialize intent', .ok m⟩ ∈
      (⟨.materialize intent, .ok materialization⟩ :: more : Log controllerSig)) :
    m = materialization := by
  rcases List.mem_cons.mp h with h | h
  · cases h
    rfl
  · rcases hmore _ _ h with hc | hc <;> cases hc

/-- An exception leaves its episode. -/
theorem not_cleansUp {episode : Episode} (hepisode : materialization.episode = some episode)
    (hmore : ∀ c r, ⟨c, r⟩ ∈ more → c.exposed = true) :
    ¬ CleansUp (⟨.materialize intent, .ok materialization⟩ :: more) := by
  intro h
  obtain ⟨authorityRef, r, hr⟩ := h intent materialization episode List.mem_cons_self hepisode
  rcases List.mem_cons.mp hr with hr | hr
  · cases hr
  · cases hmore _ _ hr

theorem Finished.cleansUp (h : Finished materialization.episode
      (⟨.materialize intent, .ok materialization⟩ :: more) log')
    (hmore : ∀ c r, ⟨c, r⟩ ∈ more → c.exposed = true) : CleansUp log' := by
  obtain ⟨tail, rfl, htail, hteardown⟩ := h
  intro intent' m episode hm hepisode
  have hlog : ∀ c r, ⟨c, r⟩ ∈ more ++ tail → c.exposed = true ∨ c.cleans = true := by
    intro c r hc
    exact (List.mem_append.mp hc).imp (hmore c r) (htail c r)
  rw [mem_materialize hlog hm] at hepisode
  obtain ⟨authorityRef, r, hr⟩ := hteardown episode hepisode
  exact ⟨authorityRef, r, List.mem_append_right _ hr⟩

end Finish

/-- A run tries to tear its episode down, and nothing else than an unforeseen exception keeps
it from doing so. -/
theorem post_run (E : ControllerEnv) (request : ConsequenceRequest) :
    post (S := controllerSig) (fun _ _ => True)
      (fun _ _ log => CleansUp log ↔ ¬ Unforeseen E request log) (run E request) () [] := by
  rw [run, post_bind, post_lift]
  cases materializationIntent E request with
  | error e =>
    refine iff_of_true (fun _ _ _ h => (List.not_mem_nil h).elim) ?_
    exact not_unforeseen_of_unexposed fun _ _ h => (List.not_mem_nil h).elim
  | ok intent =>
    rw [post_onOk, post_bind, post_call]
    rintro (e | materialization) -
    · refine iff_of_true (fun _ _ _ h => ?_) (not_unforeseen_of_unexposed fun c r h => ?_)
      · cases List.mem_singleton.mp h
      · cases List.mem_singleton.mp h
        rfl
    · rw [post_onOk]
      dsimp only
      split
      · next episode haccepted hepisode =>
        rw [post_bind]
        refine post_mono (fun r s log hended => ?_) _ (post_attend hepisode)
        obtain ⟨⟨more, rfl, hmore⟩, hr⟩ := hended
        cases r with
        | error e => exact iff_of_false (not_cleansUp hepisode hmore) (not_not.mpr (hr.mp ⟨e, rfl⟩))
        | ok ending =>
          refine post_mono (fun _ _ log' hfinished => ?_) _ (post_finish materialization ending)
          refine iff_of_true (hfinished.cleansUp hmore) ?_
          obtain ⟨tail, rfl, htail, -⟩ := hfinished
          rw [unforeseen_append htail, ← hr]
          rintro ⟨e, he⟩
          cases he
      · rw [post_bind, post_pure, post_onOk]
        refine post_mono (fun _ _ log' hfinished => ?_) _ (post_finish materialization _)
        refine iff_of_true (hfinished.cleansUp fun _ _ h => (List.not_mem_nil h).elim) ?_
        obtain ⟨tail, rfl, htail, -⟩ := hfinished
        rw [unforeseen_append htail]
        refine not_unforeseen_of_unexposed fun c r h => ?_
        cases List.mem_singleton.mp h
        rfl

/-- The episode of a run is torn down, or its teardown is tried, where all it needs until then
answers and constructs, and nowhere else. -/
theorem cleansUp_iff (E : ControllerEnv) (request : ConsequenceRequest) (ω : Oracle controllerSig) :
    CleansUp (exec ω (run E request) () []).2.2 ↔
      ¬ Unforeseen E request (exec ω (run E request) () []).2.2 :=
  exec_of_post (Q := fun _ _ log => CleansUp log ↔ ¬ Unforeseen E request log)
    (A := fun _ _ => True) (fun _ _ => trivial) (run E request) (post_run E request)

/-! ### A grant issuer that raises -/

/-- A controller whose payloads are all valid. -/
def permissive : ControllerEnv := ⟨.reference, fun _ _ => .ok (), String.toUpper, true⟩

/-- One request. -/
def levelRequest : ConsequenceRequest where
  requestId := "r"
  provider := "memory"
  expected := [("level", .int 1)]
  idempotencyKey := "k"
  provider_ne := memory_ne
  idempotencyKey_ne := key_ne

def levelEpisode : Episode := ⟨"episode", "memory", "environment", none, .alive⟩

def levelObservation : Observation := ⟨"episode", [("level", .int 0)], "digest"⟩

/-- One world, with one capability. -/
def levelWorld : MaterializationResult where
  accepted := true
  standing := .alive
  episode := some levelEpisode
  observation := some levelObservation
  receipt := { episodeId := "episode", operation := .materialize, standing := .alive }

def levelCapability : Capability := ⟨"urn:level", "Level", .do, "level", []⟩

/-- The issuer cannot be reached, and nobody is asked further. -/
def unreachableIssuer : (c : ControllerCall) → Except Exc c.Value
  | .materialize _ => .ok levelWorld
  | .capabilities _ => .ok [levelCapability]
  | .issue .. => .error (.provider ⟨"ConnectionError", "issuer"⟩)
  | .observe _ | .execute _ | .teardown .. | .episodeReceipts _ => .error (.keyError "")

theorem episode_leaked :
    ¬ CleansUp (exec (fun _ => unreachableIssuer) (run permissive levelRequest) () []).2.2 := by
  obtain ⟨intent, hintent⟩ : ∃ intent, materializationIntent permissive levelRequest = .ok intent :=
    Fallible.exists_eq_ok_of_isOk (by decide +kernel)
  obtain ⟨⟨action, prepared⟩, hplan⟩ :
      ∃ p, planOf permissive levelRequest levelEpisode levelObservation levelCapability = .ok p :=
    Fallible.exists_eq_ok_of_isOk (by decide +kernel)
  have hlook : firstLook levelWorld levelEpisode = pure levelObservation := rfl
  have hcapabilities : unreachableIssuer (.capabilities levelEpisode.episodeId) =
      .ok [levelCapability] := rfl
  have hselected : selectCapability levelRequest [levelCapability] =
      (some levelCapability, .structural, "CAPABILITY_SELECTED") := by decide
  have hrun : post (S := controllerSig) (fun c r => r = unreachableIssuer c)
      (fun _ _ log => ¬ CleansUp log) (run permissive levelRequest) () [] := by
    rw [run, post_bind, post_lift, hintent, post_onOk, post_bind, post_call]
    rintro _ rfl
    show post _ _ (attend permissive levelRequest levelWorld levelEpisode _ >>= _) () _
    rw [post_bind, attend, post_bind, hlook, post_pure, post_onOk, analyze, post_bind, post_callNow]
    rintro _ rfl
    rw [hcapabilities, post_onOk, hselected]
    dsimp only
    rw [pursue, post_bind, post_lift, hplan, post_onOk]
    show post _ _ (call (issueCall levelRequest action prepared levelObservation) >>= _) () _
    rw [post_bind, post_call]
    rintro _ rfl
    refine not_cleansUp (show levelWorld.episode = some levelEpisode from rfl) fun c r h => ?_
    rcases List.mem_cons.mp h with h | h
    · cases h
      rfl
    · cases List.mem_singleton.mp h
      rfl
  exact (post_answers _).mp hrun

end AutonomicController

end GymAct
