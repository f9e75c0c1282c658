import GymAct.Combinatorial
import GymAct.Kernel

/-!
# The environment harness

`HarnessSession` of `envharness.py` : one episode behind a reset and step facade. A session
is its constructor's arguments (`HarnessSession`) and what it changes (`SessionState`), which
stays changed when an operation raises.

The runtime is outside : a session's operation is a cooperative program that calls the public
operations of `GymAct` (`RuntimeCall`), and any of them can raise. `RuntimeCall.program` is
the kernel's program of each.
-/

namespace GymAct

open Coop Coop.Prog

/-! ## Dictionaries -/

/-- `d.pop(key, None)`. -/
def Payload.pop (d : Payload) (key : String) : Payload := d.filter fun item => item.1 ≠ key

mutual

/-- `_subset`. -/
def subset : Payload → Payload → Bool
  | [], _ => true
  | (key, expected) :: required, observed =>
    (match observed.lookup key with
      | none => false
      | some actual => matchesValue expected actual) && subset required observed

/-- One required value against the one that is there. -/
def matchesValue : Value → Value → Bool
  | .dict expected, .dict actual => subset expected actual
  | .dict _, _ => false
  | expected, actual => actual.pyEq expected

end

/-! ## Harnesses and tasks -/

/-- An action intent, without authority to execute it. -/
structure HarnessAction where
  capability : String
  payload : Payload := []
  idempotencyKey : String
  expectedAfter : Option Payload := none
  capability_ne : capability ≠ ""
  key_ne : idempotencyKey ≠ ""

structure Stage where
  actions : List HarnessAction := []

/-- The `effect` of a contract rule. -/
inductive RuleEffect
  | allow | deny | rewrite
  deriving DecidableEq, Repr

def RuleEffect.value : RuleEffect → String
  | allow => "allow"
  | deny => "deny"
  | rewrite => "rewrite"

inductive PayloadMode
  | merge | replace
  deriving DecidableEq, Repr

def PayloadMode.value : PayloadMode → String
  | merge => "merge"
  | replace => "replace"

structure ContractRule where
  capability : String
  effect : RuleEffect := .allow
  requiredState : Payload := []
  rewriteCapability : Option String := none
  payloadOverrides : Payload := []
  payloadMode : PayloadMode := .merge
  maxConsecutive : Option ℤ := none
  reason : String := "CONTRACT_RULE"
  feedback : Option String := none
  capability_ne : capability ≠ ""
  /-- `CONTRACT_REWRITE_REQUIRES_CAPABILITY`. -/
  rewrite_requires : effect = .rewrite → ∃ target, rewriteCapability = some target ∧ target ≠ ""
  /-- `CONTRACT_REWRITE_CAPABILITY_WITHOUT_REWRITE`. -/
  rewrite_only : effect ≠ .rewrite → rewriteCapability = none
  /-- `CONTRACT_DENY_CANNOT_TRANSFORM_PAYLOAD`. -/
  deny_keeps : effect = .deny → payloadOverrides = [] ∧ payloadMode = .merge
  /-- `CONTRACT_MAX_CONSECUTIVE_MUST_BE_POSITIVE`. -/
  consecutive_pos : ∀ n, maxConsecutive = some n → 1 ≤ n

structure Contract where
  rules : List ContractRule := []
  hideObservationKeys : List String := []
  /-- `CONTRACT_HIDDEN_OBSERVATION_KEY_MUST_BE_NONEMPTY`. -/
  hidden_ne : "" ∉ hideObservationKeys
  /-- A `frozenset`. -/
  hidden_distinct : hideObservationKeys.Nodup

structure HarnessSpec where
  stages : List Stage := []
  contracts : List Contract := []
  identifier : String := ""

/-- The stage actions of a harness, in order. -/
def HarnessSpec.stageActions (h : HarnessSpec) : List HarnessAction := h.stages.flatMap Stage.actions

/-- `_action_semantics`. -/
def actionSemantics (action : HarnessAction) : Value :=
  .dict [("capability", .str action.capability), ("payload", .dict action.payload),
    ("expected_after", (action.expectedAfter.map Value.dict).getD .null)]

/-- `_rule_semantics`. -/
def ruleSemantics (rule : ContractRule) : Value :=
  .dict [("capability", .str rule.capability), ("effect", .str rule.effect.value),
    ("required_state", .dict rule.requiredState),
    ("rewrite_capability", .ofOption rule.rewriteCapability),
    ("payload_overrides", .dict rule.payloadOverrides),
    ("payload_mode", .str rule.payloadMode.value),
    ("max_consecutive", (rule.maxConsecutive.map Value.int).getD .null),
    ("reason", .str rule.reason), ("feedback", .ofOption rule.feedback)]

/-- `semantic_digest`. -/
def HarnessSpec.semanticDigest (C : Canon) (h : HarnessSpec) : Except PyError String :=
  C.digest (.dict [
    ("stages", .list (h.stages.map fun stage => .list (stage.actions.map actionSemantics))),
    ("contracts", .list (h.contracts.map fun contract => .dict [
      ("rules", .list (contract.rules.map ruleSemantics)),
      ("hide_observation_keys",
        .ofStrings (contract.hideObservationKeys.insertionSort fun a b => a ≤ b))]))])

/-- `HarnessSpec(…)` : a harness without an identifier is named by its digest. -/
def HarnessSpec.construct (C : Canon) (h : HarnessSpec) : Except PyError HarnessSpec :=
  if h.identifier = "" then do
    let d ← h.semanticDigest C
    return { h with identifier := "urn:gymact:envharness:" ++ d }
  else .ok h

structure TaskSpec where
  provider : String
  scenario : Option String := none
  config : Payload := []
  goal : Payload := []
  harness : HarnessSpec
  provider_ne : provider ≠ ""

/-! ## Results -/

structure HarnessAdmission where
  accepted : Bool
  standing : Standing
  reason : String
  checkedStageActions : ℕ := 0
  checkedRewriteTargets : ℕ := 0
  deriving DecidableEq

structure ContractDecision where
  admitted : Bool
  action : HarnessAction
  standing : Standing
  reason : String
  feedback : List String := []
  evidenceDigest : String := ""

structure HarnessResetResult where
  accepted : Bool
  standing : Standing
  materialization : MaterializationResult
  admission : Option HarnessAdmission := none
  stageResults : List ActuationResult := []
  stageVerifications : List VerificationResult := []
  rollbackReceipt : Option Receipt := none
  cleanupReceipt : Option Receipt := none
  reason : Option String := none

structure HarnessStepResult where
  accepted : Bool
  standing : Standing
  action : HarnessAction
  observation : Payload
  actuation : Option ActuationResult := none
  readResult : Option Payload := none
  contractDecision : Option ContractDecision := none
  postconditionVerification : Option VerificationResult := none
  rollbackReceipt : Option Receipt := none
  reason : Option String := none

/-! ## The runtime of a session -/

/-- The operations of a runtime that a session calls. -/
inductive RuntimeCall
  | materialize (intent : MaterializationIntent)
  | capabilities (episodeId : String)
  | observe (episodeId : String)
  | read (episodeId capabilityRef : String) (payload : Payload)
  | act (intent : ActuationIntent)
  | verify (episodeId : String) (expected : Payload)
  | checkpoint (episodeId : String)
  | restore (episodeId : String) (saved : Payload) (authorityRef : Option String)
  | teardown (episodeId : String) (authorityRef : Option String)
  /-- `uuid4().hex`, which the kernel and its callers draw from one source. -/
  | uuid4
  deriving DecidableEq, Repr

/-- What each operation returns. -/
@[reducible] def RuntimeCall.Value : RuntimeCall → Type
  | materialize _ => MaterializationResult
  | capabilities _ => List Capability
  | observe _ => Observation
  | read .. | checkpoint _ => Payload
  | act _ => ActuationResult
  | verify .. => VerificationResult
  | restore .. | teardown .. => Receipt
  | uuid4 => String

/-- The kernel's program of an operation. -/
def RuntimeCall.program {Λ : Type} (rt : Runtime Λ) : (c : RuntimeCall) → M Λ c.Value
  | materialize intent => GymAct.materialize rt intent
  | capabilities episodeId => GymAct.capabilities episodeId
  | observe episodeId => GymAct.observe rt episodeId
  | read episodeId capabilityRef payload => GymAct.read episodeId capabilityRef (some payload)
  | act intent => GymAct.act rt intent
  | verify episodeId expected => GymAct.verify rt episodeId expected
  | checkpoint episodeId => GymAct.checkpoint rt episodeId
  | restore episodeId saved authorityRef => GymAct.restore rt episodeId saved authorityRef
  | teardown episodeId authorityRef => GymAct.teardown rt episodeId authorityRef
  | uuid4 => GymAct.uuid4 rt

/-! ## Sessions -/

/-- What a session is constructed with. -/
structure HarnessSession where
  task : TaskSpec
  authorityRef : Option String := none
  principal : Option String := none

/-- What a session changes. -/
structure SessionState where
  episodeId : Option String := none
  history : List HarnessAction := []
  feedback : List String := []

/-- A session is the only one to change its state, so it takes no locks. -/
@[reducible] def harnessSig : Sig where
  State := SessionState
  Lock := Empty
  Call := RuntimeCall
  Reply c := Except Exc c.Value
  Err := Exc

/-- A program of a session. -/
abbrev HarnessM (α : Type) := Prog harnessSig α

/-- `_GOOD_STANDINGS`. -/
def Standing.good : Standing → Bool
  | .alive | .partialAlive => true
  | _ => false

/-- A `RuntimeError`. -/
def runtimeError (message : String) : Exc := .provider ⟨"RuntimeError", message⟩

namespace HarnessSession

variable (C : Canon) (session : HarnessSession)

/-- A call of the runtime. -/
def call (c : RuntimeCall) : HarnessM c.Value := do
  let r ← awaitCall (S := harnessSig) c
  Prog.lift r

/-- A call that is not awaited. -/
def callNow (c : RuntimeCall) : HarnessM c.Value := do
  let r ← askCall (S := harnessSig) c
  Prog.lift r

/-- `digest`. -/
def digestOrRaise (d : Except PyError String) : HarnessM String :=
  Prog.lift (d.mapError .canonicalization)

/-- `_episode`. -/
def episode : HarnessM String := do
  let s ← getState
  match s.episodeId with
  | none => raise (runtimeError "ENVHARNESS_NOT_RESET")
  | some episodeId => pure episodeId

/-- `_capability` : the first one of that IRI. -/
def capability (capabilityRef : String) : HarnessM (Option Capability) := do
  let episodeId ← episode
  let capabilities ← callNow (.capabilities episodeId)
  pure (capabilities.find? fun cap => cap.iri = capabilityRef)

/-- `_rollback`. -/
def rollback (checkpoint : Payload) : HarnessM Receipt := do
  let episodeId ← episode
  call (.restore episodeId checkpoint session.authorityRef)

/-- `teardown`. -/
def teardown : HarnessM Receipt := do
  let episodeId ← episode
  let receipt ← call (.teardown episodeId session.authorityRef)
  if receipt.standing.good then modify fun s => { s with episodeId := none }
  pure receipt

/-- `verify`. -/
def verify (expected : Option Payload := none) : HarnessM VerificationResult := do
  let episodeId ← episode
  call (.verify episodeId (expected.getD session.task.goal))

/-! ### Reset -/

/-- The stage actions of `_admit_harness`; `none` once all are checked. -/
def admitStageActions : List HarnessAction → (stageCount : ℕ) →
    HarnessM (Option HarnessAdmission)
  | [], _ => pure none
  | action :: actions, stageCount => do
    match ← capability action.capability with
    | none =>
      pure (some ⟨false, .unsupported, "STAGE_CAPABILITY_UNSUPPORTED", stageCount + 1, 0⟩)
    | some capability =>
      if capability.consequence ≠ .do then
        pure (some ⟨false, .refused, "STAGE_REQUIRES_DO_CAPABILITY", stageCount + 1, 0⟩)
      else admitStageActions actions (stageCount + 1)

/-- The rewrite targets of `_admit_harness`. -/
def admitRewrites (stageCount : ℕ) : List ContractRule → (rewriteCount : ℕ) →
    HarnessM HarnessAdmission
  | [], rewriteCount => pure ⟨true, .alive, "HARNESS_ADMITTED", stageCount, rewriteCount⟩
  | rule :: rules, rewriteCount => do
    if rule.effect ≠ .rewrite then admitRewrites stageCount rules rewriteCount
    else
      match ← capability (rule.rewriteCapability.getD "") with
      | none =>
        pure ⟨false, .unsupported, "CONTRACT_REWRITE_TARGET_UNSUPPORTED", stageCount,
          rewriteCount + 1⟩
      | some _ => admitRewrites stageCount rules (rewriteCount + 1)

/-- `_admit_harness`. -/
def admitHarness : HarnessM HarnessAdmission := do
  let actions := session.task.harness.stageActions
  match ← admitStageActions actions 0 with
  | some refusal => pure refusal
  | none =>
    admitRewrites actions.length (session.task.harness.contracts.flatMap Contract.rules) 0

/-- What `reset` knows once the harness is admitted. -/
structure Staging where
  materialization : MaterializationResult
  admission : HarnessAdmission
  baseline : Payload

/-- `_failed_stage_result`. -/
def failedStageResult (staging : Staging) (results : List ActuationResult)
    (verifications : List VerificationResult) (standing : Standing) (reason : String) :
    HarnessM HarnessResetResult := do
  let rollback ← rollback session staging.baseline
  let ok := rollback.standing.good
  pure {
    accepted := false
    standing := if ok then standing else rollback.standing
    materialization := staging.materialization
    admission := some staging.admission
    stageResults := results
    stageVerifications := verifications
    rollbackReceipt := some rollback
    reason := some (if ok then reason else "STAGE_ROLLBACK_FAILED:" ++ reason) }

/-- An intent's validator refuses what RFC 8785 cannot encode. -/
def validated {α : Type} (dump : Value) (intent : α) : HarnessM α :=
  match C.canonicalBytes dump with
  | .error _ => raise (.valueError "INPUT_NOT_RFC8785_CANONICAL")
  | .ok _ => pure intent

/-- The actuation of an action on the current episode. -/
def actuate (action : HarnessAction) : HarnessM ActuationResult := do
  let episodeId ← episode
  let intent : ActuationIntent :=
    { episodeId, capability := action.capability, payload := action.payload,
      authorityRef := session.authorityRef, principal := session.principal,
      idempotencyKey := action.idempotencyKey }
  let intent ← validated C intent.modelDump intent
  call (.act intent)

/-- `result.receipt.reason or "STAGE_ACTUATION_FAILED"`. -/
def stageFailure (receipt : Receipt) : String :=
  match receipt.reason with
  | none | some "" => "STAGE_ACTUATION_FAILED"
  | some reason => reason

/-- The loop over the stage actions. -/
def applyStages (staging : Staging) : List HarnessAction → List ActuationResult →
    List VerificationResult → HarnessM HarnessResetResult
  | [], results, verifications =>
    pure { accepted := true, standing := .alive, materialization := staging.materialization,
           admission := some staging.admission, stageResults := results,
           stageVerifications := verifications }
  | action :: actions, results, verifications => do
    let result ← actuate C session action
    let results := results ++ [result]
    if result.accepted = false then
      failedStageResult session staging results verifications result.standing
        (stageFailure result.receipt)
    else
      match action.expectedAfter with
      | none => applyStages staging actions results verifications
      | some expected =>
        let verified ← verify session (some expected)
        let verifications := verifications ++ [verified]
        if verified.passed = false then
          failedStageResult session staging results verifications .refused
            "STAGE_POSTCONDITION_FAILED"
        else applyStages staging actions results verifications

/-- The harness is not admitted : tear the episode down. -/
def refuseHarness (materialization : MaterializationResult) (admission : HarnessAdmission) :
    HarnessM HarnessResetResult := do
  let cleanup ← teardown session
  let ok := cleanup.standing.good
  pure {
    accepted := false
    standing := if ok then admission.standing else cleanup.standing
    materialization
    admission := some admission
    cleanupReceipt := some cleanup
    reason := some (if ok then admission.reason
      else "HARNESS_ADMISSION_CLEANUP_FAILED:" ++ admission.reason) }

/-- The episode of an earlier `reset` is torn down. -/
def priorTeardown : HarnessM Unit := do
  let s ← getState
  if s.episodeId.isSome then
    let receipt ← teardown session
    if receipt.standing.good = false then
      raise (runtimeError ("ENVHARNESS_PRIOR_TEARDOWN_" ++ receipt.standing.value))

/-- The materialization of `reset`. -/
def materialize : HarnessM MaterializationResult := do
  let idempotencyKey ← callNow .uuid4
  let intent : MaterializationIntent :=
    { provider := session.task.provider, scenario := session.task.scenario,
      config := session.task.config, authorityRef := session.authorityRef,
      principal := session.principal, idempotencyKey }
  let intent ← validated C intent.modelDump intent
  call (.materialize intent)

/-- `reset` once the episode exists. -/
def prepare (materialization : MaterializationResult) : HarnessM HarnessResetResult := do
  let admission ← admitHarness session
  if admission.accepted = false then refuseHarness session materialization admission
  else
    let episodeId ← episode
    let baseline ← call (.checkpoint episodeId)
    applyStages C session ⟨materialization, admission, baseline⟩ session.task.harness.stageActions
      [] []

/-- `reset`. -/
def reset : HarnessM HarnessResetResult := do
  priorTeardown session
  let materialization ← materialize C session
  match materialization.accepted, materialization.episode with
  | true, some episode =>
    modify fun s => { s with episodeId := some episode.episodeId, history := [], feedback := [] }
    prepare C session materialization
  | _, _ =>
    pure { accepted := false, standing := materialization.standing, materialization,
           reason := materialization.receipt.reason }

/-! ### Observations and steps -/

/-- `raw_observe`. -/
def rawObserve : HarnessM Observation := do
  let episodeId ← episode
  call (.observe episodeId)

/-- The keys some contract hides. -/
def hiddenKeys : List String := session.task.harness.contracts.flatMap Contract.hideObservationKeys

/-- `observe`. -/
def observe : HarnessM Payload := do
  let raw ← rawObserve
  let state := (hiddenKeys session).foldl Payload.pop raw.state
  let s ← getState
  if s.feedback = [] then pure state
  else pure (state.set "_envharness_feedback" (.ofStrings s.feedback))

/-- `_consecutive_count`. -/
def consecutiveCount (history : List HarnessAction) (capability : String) : ℕ :=
  (history.reverse.takeWhile fun action => action.capability = capability).length

/-- `_decision_digest`. -/
def decisionDigest (action : HarnessAction) (raw : Observation) (admitted : Bool) (reason : String)
    (feedback : List String) : HarnessM String := do
  let s ← getState
  let semantic ← digestOrRaise (session.task.harness.semanticDigest C)
  digestOrRaise (C.digest (.dict [
    ("harness", .str session.task.harness.identifier),
    ("harness_semantic_digest", .str semantic),
    ("action", .dict [("capability", .str action.capability), ("payload", .dict action.payload),
      ("idempotency_key", .str action.idempotencyKey)]),
    ("raw_state_digest", .str raw.stateDigest), ("history_length", .int s.history.length),
    ("admitted", .bool admitted), ("reason", .str reason), ("feedback", .ofStrings feedback)]))

/-- A rule applies to an action in a state, after a history. -/
def applies (rule : ContractRule) (action : HarnessAction) (raw : Observation)
    (history : List HarnessAction) : Bool :=
  rule.capability = action.capability &&
    (rule.requiredState.isEmpty || subset rule.requiredState raw.state) &&
    (match rule.maxConsecutive with
      | none => true
      | some n => n ≤ consecutiveCount history action.capability)

/-- `(rule.rewrite_capability if rule.effect == "rewrite" else current.capability) or
current.capability`. -/
def rewrittenCapability (rule : ContractRule) (action : HarnessAction) : String :=
  match rule.effect, rule.rewriteCapability with
  | .rewrite, some target => if target = "" then action.capability else target
  | _, _ => action.capability

theorem rewrittenCapability_ne (rule : ContractRule) (action : HarnessAction) :
    rewrittenCapability rule action ≠ "" := by
  unfold rewrittenCapability
  split
  · split
    · exact action.capability_ne
    · next h => exact h
  · exact action.capability_ne

/-- The action as a rule rewrites it. -/
def rewrite (rule : ContractRule) (action : HarnessAction) : HarnessAction :=
  { capability := rewrittenCapability rule action
    payload :=
      match rule.payloadMode with
      | .replace => Payload.update [] rule.payloadOverrides
      | .merge => Payload.update action.payload rule.payloadOverrides
    idempotencyKey := action.idempotencyKey
    expectedAfter := action.expectedAfter
    capability_ne := rewrittenCapability_ne rule action
    key_ne := action.key_ne }

/-- `feedback.append(rule.feedback)` if there is any. -/
def heard (feedback : List String) : Option String → List String
  | none | some "" => feedback
  | some text => feedback ++ [text]

/-- The loop of `admit` over the rules of all contracts. -/
def admitRules (raw : Observation) : List ContractRule → HarnessAction → (reason : String) →
    (feedback : List String) → HarnessM ContractDecision
  | [], current, reason, feedback => do
    let evidenceDigest ← decisionDigest C session current raw true reason feedback
    pure ⟨true, current, .alive, reason, feedback, evidenceDigest⟩
  | rule :: rules, current, reason, feedback => do
    let s ← getState
    if applies rule current raw s.history then
      let feedback := heard feedback rule.feedback
      if rule.effect = .deny then
        let evidenceDigest ← decisionDigest C session current raw false rule.reason feedback
        pure ⟨false, current, .refused, rule.reason, feedback, evidenceDigest⟩
      else admitRules raw rules (rewrite rule current) rule.reason feedback
    else admitRules raw rules current reason feedback

/-- `admit` of a session. -/
def admitAction (action : HarnessAction) : HarnessM ContractDecision := do
  let raw ← rawObserve
  admitRules C session raw (session.task.harness.contracts.flatMap Contract.rules) action
    "CONTRACT_ADMITTED" []

/-- `_verify_step_postcondition`. -/
def verifyStepPostcondition (action : HarnessAction) : HarnessM (Option VerificationResult) :=
  match action.expectedAfter with
  | none => pure none
  | some expected => some <$> verify session (some expected)

/-- The postcondition was verified, and did not hold. -/
def failed : Option VerificationResult → Bool
  | some verification => !verification.passed
  | none => false

/-- `self._history.append(action)`. -/
def remember (action : HarnessAction) : HarnessM Unit :=
  modify fun s => { s with history := s.history ++ [action] }

/-- The part of `step` for a READ capability. -/
def stepRead (decision : ContractDecision) : HarnessM HarnessStepResult := do
  let action := decision.action
  let episodeId ← episode
  let readResult ← call (.read episodeId action.capability action.payload)
  let verification ← verifyStepPostcondition session action
  if failed verification then
    let observation ← observe session
    pure { accepted := false, standing := .refused, action, observation,
           readResult := some readResult, contractDecision := some decision,
           postconditionVerification := verification, reason := some "STEP_POSTCONDITION_FAILED" }
  else
    remember action
    let observation ← observe session
    pure { accepted := true, standing := .alive, action, observation,
           readResult := some readResult, contractDecision := some decision,
           postconditionVerification := verification }

/-- The postcondition of an actuation failed : roll back. -/
def stepRollback (decision : ContractDecision) (actuation : ActuationResult)
    (verification : Option VerificationResult) (checkpoint : Option Payload) :
    HarnessM HarnessStepResult := do
  match checkpoint with
  | none => raise (runtimeError "ENVHARNESS_POSTCONDITION_CHECKPOINT_MISSING")
  | some checkpoint =>
    let rollback ← rollback session checkpoint
    let ok := rollback.standing.good
    let observation ← observe session
    pure { accepted := false, standing := if ok then .refused else rollback.standing,
           action := decision.action, observation, actuation := some actuation,
           contractDecision := some decision, postconditionVerification := verification,
           rollbackReceipt := some rollback
           reason := some (if ok then "STEP_POSTCONDITION_FAILED"
             else "STEP_POSTCONDITION_ROLLBACK_FAILED") }

/-- The checkpoint of an action that declares a postcondition. -/
def stepCheckpoint (action : HarnessAction) : HarnessM (Option Payload) := do
  if action.expectedAfter.isSome then
    let episodeId ← episode
    some <$> call (.checkpoint episodeId)
  else pure none

/-- The part of `step` for a DO capability. -/
def stepDo (decision : ContractDecision) : HarnessM HarnessStepResult := do
  let action := decision.action
  let checkpoint ← stepCheckpoint action
  let actuation ← actuate C session action
  if actuation.accepted = false then
    let observation ← observe session
    pure { accepted := false, standing := actuation.standing, action, observation,
           actuation := some actuation, contractDecision := some decision,
           reason := actuation.receipt.reason }
  else
    let verification ← verifyStepPostcondition session action
    if failed verification then stepRollback session decision actuation verification checkpoint
    else
      remember action
      let observation ← observe session
      pure { accepted := true, standing := actuation.standing, action, observation,
             actuation := some actuation, contractDecision := some decision,
             postconditionVerification := verification, reason := actuation.receipt.reason }

/-- `step`. -/
def step (action : HarnessAction) : HarnessM HarnessStepResult := do
  let decision ← admitAction C session action
  modify fun s => { s with feedback := s.feedback ++ decision.feedback }
  if decision.admitted = false then
    let observation ← observe session
    pure { accepted := false, standing := decision.standing, action := decision.action, observation,
           contractDecision := some decision, reason := some decision.reason }
  else
    match ← capability decision.action.capability with
    | none =>
      let observation ← observe session
      pure { accepted := false, standing := .unsupported, action := decision.action, observation,
             contractDecision := some decision, reason := some "UNKNOWN_CAPABILITY" }
    | some capability =>
      if capability.consequence = .read then stepRead session decision
      else stepDo C session decision

/-! ### What the helpers ask -/

section Posts

variable {A : (c : RuntimeCall) → Except Exc c.Value → Prop} {s : SessionState}
  {log : Log harnessSig}

@[simp] theorem post_call (c : RuntimeCall)
    {R : Except Exc c.Value → SessionState → Log harnessSig → Prop} :
    @post harnessSig (no_index c.Value) A R (call c) s log ↔ ∀ r, A c r → R r s (log ++ [⟨c, r⟩]) := Iff.rfl

@[simp] theorem post_callNow (c : RuntimeCall)
    {R : Except Exc c.Value → SessionState → Log harnessSig → Prop} :
    @post harnessSig (no_index c.Value) A R (callNow c) s log ↔ ∀ r, A c r → R r s (log ++ [⟨c, r⟩]) := Iff.rfl

/-- Any answer of the runtime, told apart. -/
theorem post_call_cases {c : RuntimeCall}
    {Q : Except Exc c.Value → SessionState → Log harnessSig → Prop}
    (herr : ∀ e, Q (.error e) s (log ++ [⟨c, .error e⟩]))
    (hok : ∀ v, Q (.ok v) s (log ++ [⟨c, .ok v⟩])) :
    post (S := harnessSig) (fun _ _ => True) Q (call c) s log := by
  rw [post_call]
  rintro (e | v) -
  · exact herr e
  · exact hok v

/-- The current episode. -/
def currentEpisode (s : SessionState) : Except Exc String :=
  match s.episodeId with
  | none => .error (runtimeError "ENVHARNESS_NOT_RESET")
  | some episodeId => .ok episodeId

@[simp] theorem post_episode {R : Except Exc String → SessionState → Log harnessSig → Prop} :
    post (S := harnessSig) A R episode s log ↔ R (currentEpisode s) s log := by
  rw [episode, post_bind, post_getState, post_onOk, currentEpisode]
  rcases s.episodeId with _ | episodeId <;> rfl

end Posts

end HarnessSession

end GymAct
