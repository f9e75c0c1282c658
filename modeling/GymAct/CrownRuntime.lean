import GymAct.ActTrace
import GymAct.ActionContract
import GymAct.KernelRuns

/-!
# Verified consequences and the broker

`crown_runtime.py` above the kernel : `executeVerified` acts and then verifies,
`executeAdmitted` does so only after the admission of a grant, `reconcileUncertain`
observes an execution of unknown outcome. `brce.py` gives them the port of the runtime
that may act (`brokerAct`) : the sealed one of a `ProductionGymAct`, whose public `act` is
a receipted refusal, and `act` itself of a reference runtime.

`execute_grant_bound` : what `brokerExecute` actuates is the grant's capability with the
prepared payload, on the environment of the episode the prepared action names; it is the
environment of the grant's subject exactly when a gate before the provider stops the
request or that episode's environment carries one of the subject's names.
-/

namespace GymAct

open Coop Coop.Prog

variable {Λ : Type} (rt : Runtime Λ)

/-! ## `crown_runtime.py` -/

/-- One candidate DO path, with the standing of its verification. -/
structure VerifiedTransition where
  standing : Standing
  actuation : ActuationResult
  verification : Option VerificationResult := none
  receipt : Receipt
  deriving DecidableEq, Repr

/-- The observed disposition of an uncertain execution. -/
structure ReconciledTransition where
  reconciliation : ReconciliationResult
  verification : VerificationResult
  receipt : Receipt
  deriving DecidableEq, Repr

/-- `_world_changed`. -/
def worldChanged (receipt : Receipt) : Option Bool :=
  match receipt.preStateDigest, receipt.postStateDigest with
  | some pre, some post => some (pre ≠ post)
  | _, _ => none

/-- `_possible_unacknowledged_effect`. -/
def possibleUnacknowledgedEffect (result : ActuationResult) : Bool :=
  result.receipt.reason == some "ACTUATION_TIMEOUT" ||
    (!result.accepted && worldChanged result.receipt == some true)

/-- `_verification_receipt`. -/
def verificationReceipt (actuation : ActuationResult) (verification : VerificationResult)
    (standing : Standing) (reason : Option String) : Receipt :=
  let source := actuation.receipt
  { episodeId := source.episodeId, operation := .verify, standing, subjectRef := source.subjectRef,
    capabilityRef := source.capabilityRef, authorityRef := source.authorityRef,
    authorityEvidenceRef := source.authorityEvidenceRef, principal := source.principal,
    delegatedPrincipal := source.delegatedPrincipal, policyRevision := source.policyRevision,
    intendedEffects := source.intendedEffects, idempotencyKey := source.idempotencyKey,
    planningProvenanceDigest := source.planningProvenanceDigest,
    preStateDigest := source.preStateDigest, postStateDigest := some verification.stateDigest,
    acknowledgementStatus := some (if actuation.accepted then "ACKNOWLEDGED" else "UNKNOWN"),
    worldChanged := worldChanged source, verificationId := some verification.verificationId,
    verified := some verification.passed, observationConfidence := source.observationConfidence,
    parentReceiptIds := [source.receiptId], reason }

/-- The receipt of an actuation whose outcome is uncertain. -/
def uncertainReceipt (source : Receipt) : Receipt :=
  { episodeId := source.episodeId, operation := .act, standing := .uncertain,
    subjectRef := source.subjectRef, capabilityRef := source.capabilityRef,
    authorityRef := source.authorityRef, authorityEvidenceRef := source.authorityEvidenceRef,
    principal := source.principal, delegatedPrincipal := source.delegatedPrincipal,
    policyRevision := source.policyRevision, intendedEffects := source.intendedEffects,
    idempotencyKey := source.idempotencyKey,
    planningProvenanceDigest := source.planningProvenanceDigest,
    preStateDigest := source.preStateDigest, postStateDigest := source.postStateDigest,
    acknowledgementStatus := some "LOST", worldChanged := worldChanged source,
    verified := some false, parentReceiptIds := [source.receiptId],
    errorDigest := source.errorDigest, reason := some "ACTUATION_OUTCOME_UNCERTAIN" }

/-- `execute_verified`, over the port that acts. -/
def executeVerified (act : ActuationIntent → M Λ ActuationResult) (intent : ActuationIntent)
    (expected : Payload) : M Λ VerifiedTransition := do
  let actuation ← act intent
  if actuation.accepted = false then
    if possibleUnacknowledgedEffect actuation then
      let uncertain ← recordNew rt (uncertainReceipt actuation.receipt)
      pure { standing := .uncertain, actuation, receipt := uncertain }
    else
      pure { standing := actuation.standing, actuation, receipt := actuation.receipt }
  else
    let verification ← verify rt intent.episodeId expected
    let standing := if verification.passed then Standing.alive else .refused
    let receipt ← recordNew rt (verificationReceipt actuation verification standing
      (if verification.passed then none else some "POSTCONDITION_FAILED"))
    pure { standing, actuation, verification := some verification, receipt }

/-- The disposition of an uncertain execution, from what its verification observed. -/
def reconciliationOf (source : Receipt) (verification : VerificationResult) :
    ReconciliationResult :=
  if verification.passed then
    { disposition := .effectConfirmed, standing := .alive,
      observedStateDigest := some verification.stateDigest,
      verificationRef := some verification.verificationId,
      reason := some "RECONCILIATION_EFFECT_CONFIRMED", retry := by simp }
  else if source.preStateDigest = some verification.stateDigest then
    { disposition := .noEffect, standing := .refused,
      observedStateDigest := some verification.stateDigest,
      verificationRef := some verification.verificationId,
      reason := some "RECONCILIATION_NO_EFFECT_RETRY_NOT_ADMITTED", retry := by simp }
  else
    { disposition := .partialEffect, standing := .uncertain,
      observedStateDigest := some verification.stateDigest,
      verificationRef := some verification.verificationId,
      reason := some "RECONCILIATION_PARTIAL_EFFECT", retry := by simp }

/-- `reconcile_uncertain`. -/
def reconcileUncertain (transition : VerifiedTransition) (expected : Payload) :
    M Λ ReconciledTransition := do
  if transition.standing ≠ .uncertain then
    raise (.valueError "RECONCILIATION_REQUIRES_UNCERTAIN_TRANSITION")
  else
    let verification ← verify rt transition.actuation.receipt.episodeId expected
    let reconciliation := reconciliationOf transition.actuation.receipt verification
    let receipt ← recordNew rt (verificationReceipt transition.actuation verification
      reconciliation.standing reconciliation.reason)
    pure { reconciliation, verification, receipt }

section ExecuteAdmitted

variable (action : ActionDefinition) (prepared : PreparedAction) (grant : ExecutionGrant)

/-- `_grant_fields`, on a receipt. -/
def Receipt.withGrant (r : Receipt) : Receipt :=
  { r with
    principal := some grant.principal
    delegatedPrincipal := grant.delegatedPrincipal
    policyRevision := some grant.policyRevision
    intendedEffects := action.expectedEffects.map ExpectedEffect.items }

/-- The receipt of a request whose grant is not admitted. -/
def admissionReceipt (reason : String) : Receipt :=
  { episodeId := prepared.episodeId, operation := .act, standing := .refused,
    subjectRef := some prepared.subject.providerRef, capabilityRef := some action.capabilityRef,
    authorityRef := some grant.authorityRef, idempotencyKey := some prepared.idempotencyKey,
    planningProvenanceDigest := prepared.planningProvenanceDigest,
    acknowledgementStatus := some "NOT_ATTEMPTED", verified := some false, reason := some reason :
    Receipt }.withGrant action grant

/-- The receipt that binds a transition to its grant. -/
def boundReceipt (source : Receipt) : Receipt :=
  { episodeId := source.episodeId, operation := source.operation, standing := source.standing,
    subjectRef := some prepared.subject.providerRef, capabilityRef := some action.capabilityRef,
    authorityRef := some grant.authorityRef, authorityEvidenceRef := source.authorityEvidenceRef,
    idempotencyKey := some prepared.idempotencyKey,
    planningProvenanceDigest := prepared.planningProvenanceDigest,
    preStateDigest := source.preStateDigest, postStateDigest := source.postStateDigest,
    acknowledgementStatus := source.acknowledgementStatus, worldChanged := source.worldChanged,
    verificationId := source.verificationId, verified := source.verified,
    observationConfidence := source.observationConfidence,
    parentReceiptIds := [source.receiptId], errorDigest := source.errorDigest,
    reason := source.reason : Receipt }.withGrant action grant

/-- The intent of an admitted request. -/
def preparedIntent : ActuationIntent :=
  { episodeId := prepared.episodeId, capability := action.capabilityRef,
    payload := prepared.payload, authorityRef := some grant.authorityRef,
    planningProvenanceDigest := prepared.planningProvenanceDigest,
    idempotencyKey := prepared.idempotencyKey }

/-- Construct an intent : its validator refuses what RFC 8785 cannot encode. -/
def constructIntent (intent : ActuationIntent) : M Λ ActuationIntent :=
  match rt.canon.canonicalBytes intent.modelDump with
  | .error _ => raise (.valueError "INPUT_NOT_RFC8785_CANONICAL")
  | .ok _ => pure intent

/-- `execute_admitted`, over the port that acts, at a moment. -/
def executeAdmitted (act : ActuationIntent → M Λ ActuationResult)
    (currentRevision : Option String) (expected : Payload) (moment : ℤ) :
    M Λ VerifiedTransition := do
  let admission := admitExecution action prepared grant currentRevision moment
  if admission.admitted = false then
    let receipt ← recordNew rt (admissionReceipt action prepared grant admission.reason)
    let actuation : ActuationResult := { accepted := false, standing := .refused, receipt }
    pure { standing := .refused, actuation, receipt }
  else
    let intent ← constructIntent rt (preparedIntent action prepared grant)
    let transition ← executeVerified rt act intent expected
    let bound ← recordNew rt (boundReceipt action prepared grant transition.receipt)
    pure { transition with receipt := bound }

end ExecuteAdmitted

/-! ## `runtime.py` and `brce.py` -/

/-- The runtimes a broker is given. -/
inductive RuntimeClass
  /-- `GymAct`. -/
  | reference
  /-- `ProductionGymAct`. -/
  | production
  deriving DecidableEq, Repr

/-- The receipted refusal of a port that may not act. -/
def refusePort (intent : ActuationIntent) (reason : String) : M Λ ActuationResult := do
  let st ← state intent.episodeId
  withLock (S := kernelSig Λ) (.episode intent.episodeId) do
    let before ← observeUnlocked rt st
    let receipt ← recordNew rt
      { episodeId := intent.episodeId, operation := .act, standing := .refused,
        subjectRef := some st.environment.environmentId, capabilityRef := some intent.capability,
        authorityRef := intent.authorityRef, idempotencyKey := some intent.idempotencyKey,
        preStateDigest := some before.stateDigest, postStateDigest := some before.stateDigest,
        acknowledgementStatus := some "NOT_ATTEMPTED", worldChanged := some false,
        verified := some false, reason := some reason }
    pure { accepted := false, standing := .refused, observation := some before, receipt }

/-- `act` of a runtime. -/
def RuntimeClass.act : RuntimeClass → ActuationIntent → M Λ ActuationResult
  | .reference, intent => GymAct.act rt intent
  | .production, intent => refusePort rt intent "BRCE_EXECUTION_GRANT_REQUIRED"

/-- `ProductionGymAct._act_from_brce`. -/
def actFromBrce (intent : ActuationIntent) (sealed : Bool) : M Λ ActuationResult :=
  if sealed then act rt intent else refusePort rt intent "BRCE_EXECUTION_SEAL_REFUSED"

/-- `_BrokerRuntimeView.act` : the sealed port where there is one. -/
def brokerAct : RuntimeClass → ActuationIntent → M Λ ActuationResult
  | .production, intent => actFromBrce rt intent true
  | .reference, intent => RuntimeClass.act rt .reference intent

theorem brokerAct_eq (cls : RuntimeClass) : brokerAct rt cls = act rt := by
  cases cls <;> rfl

structure BrokerRequest where
  action : ActionDefinition
  prepared : PreparedAction
  grant : ExecutionGrant
  currentRevision : Option String := none
  expected : Payload := []
  deriving DecidableEq, Repr

/-- `BRCEBroker.execute`, at a moment. -/
def brokerExecute (cls : RuntimeClass) (request : BrokerRequest) (moment : ℤ) :
    M Λ VerifiedTransition :=
  executeAdmitted rt request.action request.prepared request.grant (brokerAct rt cls)
    request.currentRevision request.expected moment

/-! ## What a grant binds -/

/-- The environment carries one of the names of the grant's subject. -/
def OnSubject (grant : ExecutionGrant) (env : Environment) : Prop :=
  env.environmentId = grant.subject.providerRef ∨ env.environmentId = grant.subject.semanticId

/-- An actuation is of the granted capability, with the prepared payload, on the
subject of the grant. -/
def GrantBound (request : BrokerRequest) : Call → Prop
  | .actuate _ env capability payload =>
    OnSubject request.grant env ∧ capability.iri = request.grant.capabilityRef ∧
      payload = request.prepared.payload
  | _ => True

instance (grant : ExecutionGrant) (env : Environment) : Decidable (OnSubject grant env) :=
  inferInstanceAs (Decidable (_ ∨ _))

instance (request : BrokerRequest) : DecidablePred (GrantBound request)
  | .actuate .. => inferInstanceAs (Decidable (_ ∧ _))
  | .authorize .. | .materialize .. | .capabilities .. | .observe .. | .verify .. | .checkpoint ..
  | .restore .. | .teardown .. => isTrue trivial

/-- The intent of a request. -/
def BrokerRequest.intent (request : BrokerRequest) : ActuationIntent :=
  preparedIntent request.action request.prepared request.grant

/-- No gate before the provider stops the request : of admission, of the intent's own
encoding, of the idempotency index, of the limits, of the capability scope and of the
authority request's own encoding. -/
structure Reaches (request : BrokerRequest) (moment : ℤ) (w : World Λ) (st : EpisodeState) :
    Prop where
  admitted : (admitExecution request.action request.prepared request.grant
    request.currentRevision moment).admitted = true
  canonical : CanonicalIn rt.canon request.intent.modelDump
  registered : w.episodes request.prepared.episodeId = some st
  unused : w.actuationIdempotency (actKey request.intent) = none
  observable : ∃ value, ensureState rt (.dict value) = .ok ()
  within : ensureInput rt (.dict request.prepared.payload) = .ok ()
  permitted : rt.permits none request.action.capabilityRef = true
  requested : st.environment.requiresAuthority = true →
    CanonicalIn rt.canon (actRequest request.intent st).modelDump

/-- The idempotency index of `act`. -/
abbrev ActCache := String × String → Option ActuationRecord

/-- Keeping what the calls of `P` keep, of the index of `act` and the log, is a law of
operations. -/
theorem indexed_law {P : Call → Prop} {I : ActCache → Calls → Prop}
    (hI : ∀ cache log c r, P c → I cache log → I cache (log ++ [⟨c, r⟩]))
    {A : (c : Call) → c.Reply → Prop} :
    KernelLaw rt A P (fun _ => True)
      fun _ p => Keeps A (fun (w : World Λ) log => I w.actuationIdempotency log) p where
  ret r := Keeps.lift (A := A) r
  bindE hp hf := hp.bindE hf
  getState := Keeps.getState (A := A)
  leads hp ht := hp.keeps (fun _ log c r hc h => hI _ log c r hc h) ht
  idle := Keeps.modify fun _ _ h => h
  drawn := Keeps.modify fun _ _ h => h
  verified _ := Keeps.modify fun _ _ h => h
  recorded _ hf := by
    refine Keeps.bind (Keeps.bind Keeps.getState fun w => Keeps.bind (Keeps.modify fun _ _ h => h)
      fun _ => Keeps.pure _) fun r => Keeps.bind ?_ fun _ => hf r
    exact Keeps.bind Keeps.getState fun w => Keeps.bind (Keeps.lift _) fun L =>
      Keeps.bind (Keeps.modify fun _ _ h => h) fun _ => Keeps.pure _

theorem indexed_lockedLaw {P : Call → Prop} {I : ActCache → Calls → Prop}
    (hI : ∀ cache log c r, P c → I cache log → I cache (log ++ [⟨c, r⟩]))
    {A : (c : Call) → c.Reply → Prop} (l : LockId) :
    LockedLaw rt A P P (fun _ => True)
      (fun _ p => Keeps A (fun (w : World Λ) log => I w.actuationIdempotency log) p) l
      fun _ p => Keeps A (fun (w : World Λ) log => I w.actuationIdempotency log) p :=
  ⟨indexed_law rt hI, indexed_law rt hI, fun h => h.withLock l⟩

/-- Calls of `P` only. -/
theorem called_snoc {P : Call → Prop} (_ : ActCache) (log : Calls) (c : Call) (r : c.Reply)
    (hc : P c) (h : ∀ e ∈ log, P e.1) : ∀ e ∈ log ++ [⟨c, r⟩], P e.1 := by
  intro e he
  rcases List.mem_append.mp he with he | he
  · exact h e he
  · rw [List.mem_singleton.mp he]
    exact hc

section GrantBound

variable {rt} {request : BrokerRequest} {moment : ℤ} {w : World Λ} {st : EpisodeState}

@[simp] theorem BrokerRequest.intent_episodeId (request : BrokerRequest) :
    request.intent.episodeId = request.prepared.episodeId := rfl

@[simp] theorem BrokerRequest.intent_capability (request : BrokerRequest) :
    request.intent.capability = request.action.capabilityRef := rfl

@[simp] theorem BrokerRequest.intent_payload (request : BrokerRequest) :
    request.intent.payload = request.prepared.payload := rfl

@[simp] theorem BrokerRequest.intent_principal (request : BrokerRequest) :
    request.intent.principal = none := rfl

theorem canonicalIn_of_ensureState {v : Value} (h : ensureState rt v = .ok ()) :
    CanonicalIn rt.canon v := by
  unfold ensureState ensureWithin at h
  split at h
  · cases h
  · exact ⟨_, ‹_›⟩

/-- With every gate open, there are answers for which `act` asks the provider for any DO
capability under the request's reference. -/
theorem act_actuates (hr : Reaches rt request moment w st) {capability : Capability}
    (hiri : capability.iri = request.action.capabilityRef) (hdo : capability.consequence = .do) :
    ∃ ω : (c : Call) → c.Reply, ∀ P : Call → Prop,
      post (fun c r => r = ω c) (fun _ _ log => ∀ e ∈ log, P e.1) (act rt request.intent) w [] →
        P (.actuate (.act request.prepared.episodeId request.prepared.idempotencyKey) st.environment
          capability request.prepared.payload) := by
  obtain ⟨value, hv⟩ := hr.observable
  obtain ⟨d, hd⟩ := hr.canonical.digest
  obtain ⟨stateDigest, hs⟩ := (canonicalIn_of_ensureState hv).digest
  let admission : AuthorityDecision := { admitted := true, reason := "" }
  let ω : (c : Call) → c.Reply
    | .authorize _ => .ok admission
    | .capabilities _ => .ok [capability]
    | .observe _ => .ok value
    | .materialize .. | .actuate .. | .verify .. | .checkpoint _ | .restore .. | .teardown .. =>
      .error .timeout
  have hcap : capabilityNamed [capability] request.action.capabilityRef = some capability := by
    simp [capabilityNamed, hiri]
  have hobserve : ω (.observe st.environment) = .ok value := rfl
  have hcapabilities : ω (.capabilities st.environment) = .ok [capability] := rfl
  have hauthorize : ∀ req, ω (.authorize req) = .ok admission := fun _ => rfl
  have hpermits : rt.permits none capability.iri = true := by
    rw [hiri]
    exact hr.permitted
  have hanswer : ∀ c, ∃ r, r = ω c := fun c => ⟨_, rfl⟩
  refine ⟨ω, fun P h => ?_⟩
  clear_value ω
  -- the looks, the limits and the capability gates
  simp only [act, state, digest, post_bind, post_getState, post_onOk, hr.registered, post_pure,
    hd, Except.mapError, post_lift, post_withLock, actLocked, hr.unused, actFresh, observeUnlocked,
    bounded, post_awaitCall, forall_eq, hobserve, settle, hv, hs, BrokerRequest.intent_episodeId,
    BrokerRequest.intent_payload, hr.within, actCapable, immediate, post_askCall, hcapabilities,
    BrokerRequest.intent_capability, hcap, hdo, ne_eq, not_true_eq_false, if_false,
    BrokerRequest.intent_principal, hpermits, Bool.true_eq_false] at h
  -- the authority gate
  obtain ⟨before, authority, log, hacts⟩ : ∃ before authority log,
      post (fun c r => r = ω c) (fun _ _ log => ∀ e ∈ log, P e.1)
        (actAdmitted rt request.intent d st before capability authority) w log := by
    cases hreq : st.environment.requiresAuthority with
    | false =>
      simp only [actAuthorized, authorityDecision, hreq, Bool.false_eq_true, if_false, post_bind,
        post_attempt, post_pure, post_onOk, if_true] at h
      exact ⟨_, _, _, h⟩
    | true =>
      obtain ⟨bytes, hb⟩ := hr.requested hreq
      have hb' : rt.canon.canonicalBytes
          { episodeId := request.prepared.episodeId, subjectRef := st.environment.environmentId,
            operation := Operation.act, capabilityRef := capability.iri,
            payload := request.prepared.payload,
            authorityRef := request.intent.authorityRef : AuthorityRequest }.modelDump = .ok bytes := by
        rw [hiri]
        exact hb
      simp only [actAuthorized, authorityDecision, hreq, if_true, BrokerRequest.intent_episodeId,
        BrokerRequest.intent_payload, hb', bounded, settle, post_bind, post_attempt, post_awaitCall,
        forall_eq, hauthorize, post_onOk, post_lift, admission] at h
      exact ⟨_, _, _, h⟩
  obtain ⟨k, hk⟩ : ∃ k, actAdmitted rt request.intent d st before capability authority =
      .await (.actuate (.act request.intent.episodeId request.intent.idempotencyKey) st.environment
        capability request.intent.payload) k := ⟨_, rfl⟩
  rw [hk] at hacts
  obtain ⟨_, _, more, hlog⟩ := post_exists hanswer _ (hacts _ rfl)
  exact hlog _ (List.mem_append_left _ (List.mem_append_right _ (List.mem_singleton_self _)))

/-- A look that succeeded, gates that were passed : the request reaches the provider. -/
theorem reaches_of_gates (hadmitted : (admitExecution request.action request.prepared request.grant
      request.currentRevision moment).admitted = true)
    (hcanon : CanonicalIn rt.canon request.intent.modelDump)
    (hst : w.episodes request.prepared.episodeId = some st)
    (hnew : w.actuationIdempotency (actKey request.intent) = none) {calls : Calls}
    {before : Observation} {capability : Capability} {authority : AuthorityDecision}
    (h : ActGates rt request.intent st calls before capability authority) :
    Reaches rt request moment w st := by
  obtain ⟨_, -, hnamed⟩ := h.declared
  obtain ⟨_, _, -, hlook⟩ := h.looked
  have hpermitted := h.permitted
  rw [capabilityNamed_iri hnamed] at hpermitted
  exact
    { admitted := hadmitted
      canonical := hcanon
      registered := hst
      unused := hnew
      observable := ⟨_, (look_ok rt hlook).2.1⟩
      within := h.within
      permitted := hpermitted
      requested := fun hrequired => (h.authorized hrequired).1 }

/-- What `act` calls for a request, apart from the provider, is not consequential. -/
theorem post_act_calls {A : (c : Call) → c.Reply → Prop} {P : Call → Prop} (hC : rt.canon.Total)
    (hP : ∀ c, (∀ site env capability payload, c ≠ .actuate site env capability payload) → P c)
    (hadmitted : (admitExecution request.action request.prepared request.grant
      request.currentRevision moment).admitted = true)
    (hcanon : CanonicalIn rt.canon request.intent.modelDump)
    (hreach : ∀ st capability, Reaches rt request moment w st →
      capability.iri = request.action.capabilityRef → capability.consequence = .do →
        P (.actuate (.act request.prepared.episodeId request.prepared.idempotencyKey) st.environment
          capability request.prepared.payload)) :
    post A (fun _ _ log => ∀ e ∈ log, P e.1) (act rt request.intent) w [] := by
  have hgate : ∀ {c : Call}, Gate c → P c := fun {c} hc =>
    hP c fun _ _ _ _ he => by subst he; exact hc
  refine post_act_cases hC (fun e calls h => ?_) (fun _ _ _ _ _ => by simp)
    fun st d calls receipt result cache hst _ h => ?_
  · simpa using fun c hc => hgate (h.gates c hc)
  · have hcalls : ∀ e ∈ calls, P e.1 := by
      rcases h.actuates with hgates | ⟨asked, rest, _, capability, _, r, rfl, hrest, hnew, -, hgates⟩
      · exact fun e he => hgate (hgates e he)
      · obtain ⟨_, -, hnamed⟩ := hgates.declared
        have hcall : P (actuated request.intent st capability r).1 :=
          hreach st capability (reaches_of_gates hadmitted hcanon hst hnew hgates)
            (capabilityNamed_iri hnamed) hgates.consequence
        intro e he
        rcases List.mem_append.mp he with he | he
        · exact hgate (hgates.gates e he)
        rcases List.mem_cons.mp he with rfl | he
        · exact hcall
        · exact hgate (hrest e he)
    exact (post_actuationExit_iff h.receipt_eq).mpr ⟨fun _ _ => hcalls, fun _ _ => hcalls⟩

/-- Every run of a request calls the provider within `P` exactly when each call of it that the
gates let through is within `P`. -/
theorem execute_calls_iff (hC : rt.canon.Total) (cls : RuntimeClass) (request : BrokerRequest)
    (moment : ℤ) (w : World Λ) {P : Call → Prop}
    (hP : ∀ c, (∀ site env capability payload, c ≠ .actuate site env capability payload) → P c) :
    (∀ ω : Oracle (kernelSig Λ), ∀ e ∈ (exec ω (brokerExecute rt cls request moment) w []).2.2,
        P e.1) ↔
      ∀ st capability, Reaches rt request moment w st →
        capability.iri = request.action.capabilityRef → capability.consequence = .do →
          P (.actuate (.act request.prepared.episodeId request.prepared.idempotencyKey)
            st.environment capability request.prepared.payload) := by
  simp only [brokerExecute, brokerAct_eq, executeAdmitted]
  constructor
  · intro h st capability hr hiri hdo
    obtain ⟨bytes, hb⟩ := hr.canonical
    have hb' : rt.canon.canonicalBytes
      (preparedIntent request.action request.prepared request.grant).modelDump = .ok bytes := hb
    obtain ⟨ω, hω⟩ := act_actuates hr hiri hdo
    -- `act` is the first part of what is executed
    have hpost := (post_answers (S := kernelSig Λ)
      (Q := fun _ _ log => ∀ e ∈ log, P e.1) _).mpr (h fun _ => ω)
    simp only [hr.admitted, Bool.true_eq_false, if_false, constructIntent, hb', prog_pure_bind] at hpost
    have hanswer : ∀ c, ∃ r, r = ω c := fun c => ⟨_, rfl⟩
    exact hω _ (post_logged hanswer (post_logged hanswer hpost))
  · intro hreach ω
    have hgate : ∀ c, Gate c → P c := fun c hc => hP c fun _ _ _ _ he => by subst he; exact hc
    have hlaw := indexed_law rt (called_snoc (P := P)) (A := fun _ _ => True)
    have hrecord : ∀ receipt : Receipt, Keeps (fun _ _ => True)
        (fun _ log => ∀ e ∈ log, P e.1) (recordNew rt receipt) :=
      fun receipt => hlaw.recordNew trivial
    refine exec_of_post (S := kernelSig Λ) (A := fun _ _ => True)
      (Q := fun _ _ log => ∀ e ∈ log, P e.1) (fun _ _ => trivial) _ ?_
    split
    case isTrue => exact hlaw.bind (hrecord _) (fun _ => hlaw.pure _) w [] (by simp)
    case isFalse hadmitted =>
      have hadmitted := eq_true_of_ne_false hadmitted
      unfold constructIntent
      split
      · simp
      case h_2 bytes hb =>
        rw [prog_pure_bind, executeVerified, prog_bind_assoc, post_bind]
        refine post_mono (fun r w' log hlog => ?_) _
          (post_act_calls hC hP hadmitted ⟨bytes, hb⟩ hreach)
        cases r with
        | error e => exact hlog
        | ok actuation =>
          refine hlaw.bind ?_ (fun _ => hlaw.bind (hrecord _) fun _ => hlaw.pure _) w' log hlog
          have hverify : ∀ episodeId, Keeps (fun _ _ => True)
              (fun _ log => ∀ e ∈ log, P e.1) (verify rt episodeId request.expected) :=
            fun episodeId => (indexed_lockedLaw rt called_snoc (.episode episodeId)).verify hgate
              (fun _ _ => hP _ (by simp)) (fun _ _ => trivial) _
          split
          · split
            · exact hlaw.bind (hrecord _) fun _ => hlaw.pure _
            · exact hlaw.pure _
          · exact hlaw.bind (hverify _) fun _ => hlaw.bind (hrecord _) fun _ => hlaw.pure _

/-- What a request actuates is what its grant names, on the grant's subject, exactly when a
gate before the provider stops it or the environment of the prepared episode carries one of
the subject's names. -/
theorem execute_grant_bound (hC : rt.canon.Total) (cls : RuntimeClass) (request : BrokerRequest)
    (moment : ℤ) (w : World Λ) :
    (∀ ω : Oracle (kernelSig Λ), ∀ e ∈ (exec ω (brokerExecute rt cls request moment) w []).2.2,
        GrantBound request e.1) ↔
      ∀ st, Reaches rt request moment w st → OnSubject request.grant st.environment := by
  have hother : ∀ c, (∀ site env capability payload, c ≠ .actuate site env capability payload) →
      GrantBound request c := by
    intro c hc
    cases c with
    | actuate site env capability payload => exact absurd rfl (hc site env capability payload)
    | _ => trivial
  refine (execute_calls_iff hC cls request moment w hother).trans
    ⟨fun h st hr => ?_, fun h st capability hr hiri hdo => ?_⟩
  · exact (h st { iri := request.action.capabilityRef, title := "", consequence := .do, binding := "" }
      hr rfl rfl).1
  · exact ⟨h st hr, hiri.trans (admissionClosed_of_admitted hr.admitted).capability.symm, rfl⟩

end GrantBound

/-- An action without effects on the capability of the sample runs. -/
def sampleAction : ActionDefinition :=
  { semanticId := "urn:gymact:action:set", providerRef := "memory",
    capabilityRef := sampleCapability.iri, subjectType := "cell", inputSchema := [],
    expectedEffects := [],
    verification := { kind := .exactState, observerRef := "urn:gymact:observer" }
    providerRef_ne := memory_ne, capabilityRef_ne := sampleCapability_ne }

theorem sampleEpisode_ne : "a" ≠ "" := by decide

/-- A granted request for episode `a` : the grant and the prepared action agree on a
subject. -/
def sampleRequest (subject : SubjectRef) : BrokerRequest :=
  { action := sampleAction
    prepared :=
      { episodeId := "a", actionRef := sampleAction.semanticId, subject,
        admissionDigest := "digest", idempotencyKey := "k", episodeId_ne := sampleEpisode_ne,
        idempotencyKey_ne := key_ne }
    grant :=
      { principal := "operator", actionRef := sampleAction.semanticId, subject,
        capabilityRef := sampleAction.capabilityRef, authorityRef := "authority",
        policyRevision := "1", admittedObservationRef := "observation", intendedEffects := [],
        nonce := "nonce" } }

/-- The environments of the episodes `a` and `aaa` of the sample runs. -/
def sampleSubject : SubjectRef :=
  { semanticId := "urn:subject", providerRef := "urn:gymact:environment:" }

def otherSubject : SubjectRef :=
  { semanticId := "urn:subject", providerRef := "urn:gymact:environment:eee" }

/-- The tables once the episodes `a` and `aaa` are there. -/
def twoEpisodesWorld : MemoryWorld := (runOps sampleRuntime sampleOutside twoEpisodes (newWorld, [])).1

theorem execute_grant_bound_sample :
    let calls ω := (exec ω (brokerExecute sampleRuntime .production (sampleRequest sampleSubject) 0)
      twoEpisodesWorld []).2.2
    calls sampleOutside ≠ [] ∧ ∀ ω, ∀ e ∈ calls ω, GrantBound (sampleRequest sampleSubject) e.1 := by
  refine ⟨by decide +kernel, (execute_grant_bound Canon.reference_total .production
    (sampleRequest sampleSubject) 0 twoEpisodesWorld).mpr fun st hr => Or.inl ?_⟩
  have hid : (twoEpisodesWorld.episodes "a").map (fun st => st.environment.environmentId) =
      some "urn:gymact:environment:" := by decide +kernel
  have hst : twoEpisodesWorld.episodes "a" = some st := hr.registered
  simpa [hst, sampleRequest, sampleSubject] using hid

/-- The subject is the environment of episode `aaa`, the prepared action names episode `a`,
and the environment of `a` is actuated. -/
theorem execute_elsewhere :
    (twoEpisodesWorld.episodes "aaa").map (fun st => st.environment.environmentId) =
        some otherSubject.providerRef ∧
      ¬ ∀ e ∈ (exec sampleOutside
          (brokerExecute sampleRuntime .production (sampleRequest otherSubject) 0)
          twoEpisodesWorld []).2.2, GrantBound (sampleRequest otherSubject) e.1 := by
  decide +kernel

end GymAct
