import GymAct.ExecutionContract

/-!
# The autonomous execution loop

`AutonomousLoop` of `execution_loop.py` : it claims a work order at one provider after another,
executes it, verifies the effect and admits a receipt, with budgets for attempts, provider
switches and subject moves.
-/

namespace GymAct.ExecutionLoop

open Fallible

/-! ## Events and results -/

/-- The optional arguments of `_emit`. -/
structure EventFields where
  reason : String := ""
  outcome : Option LegalOutcome := none
  standing : Option Standing := none
  provider : String := ""
  extra : Payload := []

def EventFields.attributes (f : EventFields) : Payload :=
  [("reason", .str f.reason)] ++ (f.outcome.map fun o => ("outcome", .str o.value)).toList ++
    (f.standing.map fun s => ("standing", .str s.value)).toList ++
    (if f.provider = "" then [] else [("provider", .str f.provider)]) ++ f.extra

/-- The variables of `_run` that live across iterations. -/
structure LoopVars (n : ℕ) where
  subjectBefore : SubjectRef
  switches : ℕ := 0
  attempts : ℕ := 0
  moves : ℕ := 0
  providerIndex : Fin n
  faultsOnProvider : ℕ := 0

namespace AutonomousLoop

variable {W : Type} (C : Canon) (T : PyText) (L : AutonomousLoop W)

/-- A place in `self._providers`. -/
abbrev Index := Fin L.providers.length

def first : L.Index := ⟨0, L.nonempty⟩

/-- `self._now()`. -/
def readNow : LoopM W ℤ := askOk L.now .now

/-- `provider.transport`. -/
def transport (i : L.Index) : LoopM W String := askQuietly (L.providers.get i).transport

/-- `_emit`. -/
def emit (request : ExecutionRequest) (eventType : String) (fields : EventFields) :
    LoopM W Unit := do
  let tick ← L.readNow
  let provider ← (if fields.provider = "" then L.transport L.first else pure fields.provider)
  modify fun s => { s with events := s.events ++ [{
    eventType, tick, attributes := fields.attributes
    objects := [("subject", request.subject.repo ++ "@" ++ short request.subject.sha),
      ("originAuthority", request.authority.grant ++ ":" ++ request.authority.actor),
      ("provider", provider), ("worker", request.workOrder)] }] }

/-- A result with the ledger and the events of the run so far. -/
def report (outcome : LegalOutcome) (standing : Standing) (episodeStanding : EpisodeStanding)
    (receipt : Option ExecutionReceipt := none) (typedReason : Option String := none)
    (brokenTerm : Option BrokenTerm := none) : LoopM W LoopResult := do
  let s ← get
  return { outcome, standing, episodeStanding, receipt, typedReason, brokenTerm,
           actuationCount := s.actuations.length, actuations := s.actuations, events := s.events }

/-- A refusal of a gate. -/
def refuse (request : ExecutionRequest) (reason : String) (episodeStanding : EpisodeStanding)
    (broken : BrokenTerm) (extra : Payload := []) : LoopM W LoopResult := do
  L.emit request "refuse" { reason, outcome := some .refuse, standing := some .refused, extra }
  report .refuse .refused episodeStanding none reason broken

/-- `_typed_block`. -/
def typedBlock (request : ExecutionRequest) (reason : String) (broken : BrokenTerm)
    (extra : Payload := []) : LoopM W LoopResult := do
  L.emit request "typed.block"
    { reason, outcome := some .typedBlock, standing := some .blocked, extra }
  report .typedBlock .blocked .blockedInformation none reason broken

/-! ## Gates -/

/-- `_expiry_gate`. -/
def expiryGate (request : ExecutionRequest) : LoopM W (Option LoopResult) :=
  match request.authority.expiresAtTick with
  | none => pure none
  | some expires => do
    let now ← L.readNow
    if expires ≤ now then
      some <$> L.refuse request "REFUSED_CREDENTIAL_EXPIRED" .blockedAuthority .rMissingAuthority
    else return none

/-- `_authority_gate`. -/
def authorityGate (request : ExecutionRequest) : LoopM W (Option LoopResult) := do
  if ← askOk (L.isValid request.authority) .isValid then L.expiryGate request
  else some <$> L.refuse request "REFUSED_NO_AUTHORITY" .blockedAuthority .rMissingAuthority

/-- Whether one of the providers has the capabilities and the ceiling of a request. -/
def feasible (request : ExecutionRequest) : List L.Index → LoopM W Bool
  | [] => pure false
  | i :: rest => do
    let names ← askOk (L.providers.get i).capabilities (.capabilities i)
    let ceiling ← askOk (L.providers.get i).authorityCeiling (.authorityCeiling i)
    if request.capabilityRequirements ⊆ names ∧
        ceilingAtLeast T ceiling request.authority.ceiling = true then return true
    else feasible request rest

/-- `_feasibility_gate`. -/
def feasibilityGate (request : ExecutionRequest) : LoopM W (Option LoopResult) := do
  if ← L.feasible T request (List.finRange L.providers.length) then return none
  else some <$> L.refuse request "REFUSED_IMPOSSIBLE_OBJECTIVE" .failed .impossibleObjective

/-- `_resource_gate`. -/
def resourceGate (request : ExecutionRequest) : LoopM W (Option LoopResult) := do
  let limits := request.resourceConstraints
  let disk ← askQuietly L.diskMbAvailable
  let cpu ← askQuietly L.cpuCoresAvailable
  if disk < limits.diskBudgetMb then
    some <$> L.typedBlock request ("TYPED_BLOCK_RESOURCE_DISK available=" ++ toString disk ++
      " budget=" ++ toString limits.diskBudgetMb) .resourceExhausted
  else if floatLt cpu limits.cpuBudgetCores then
    some <$> L.typedBlock request ("TYPED_BLOCK_RESOURCE_CPU available=" ++ T.str (.float cpu) ++
      " budget=" ++ T.str (.float limits.cpuBudgetCores)) .resourceExhausted
  else return none

/-- `_unreconciled_gate`. -/
def unreconciledGate (request : ExecutionRequest) : LoopM W (Option LoopResult) := do
  let s ← get
  match s.unreconciled request.idempotencyKey with
  | none => return none
  | some (priorDigest, priorReason, priorTerm, priorLedger) =>
    let digest ← raising (requestDigest C request)
    if priorDigest ≠ digest then
      let result ← L.refuse request "REFUSED_IDEMPOTENCY_KEY_CONFLICT" .failed .muOnO
        [("prior_actuation_count", .int priorLedger.length)]
      return some { result with actuationCount := 0, actuations := [] }
    else
      let result ← L.typedBlock request "TYPED_BLOCK_PRIOR_ACTUATION_UNRECONCILED"
        .rMissingConsequence
        [("prior_reason", .str priorReason), ("prior_broken_term", .str priorTerm),
          ("prior_actuation_count", .int priorLedger.length),
          ("prior_provider_execution_ids", .ofStrings (priorLedger.map (·.providerExecutionId)))]
      return some { result with actuationCount := 0, actuations := [] }

/-- `_dedupe_gate`. -/
def dedupeGate (request : ExecutionRequest) : LoopM W (Option LoopResult) := do
  let s ← get
  match s.completed request.idempotencyKey with
  | none => L.unreconciledGate C request
  | some (completedDigest, existing) =>
    let digest ← raising (requestDigest C request)
    let executionId : Payload := [("provider_execution_id", .str existing.providerExecutionId)]
    if completedDigest ≠ digest then
      some <$> L.refuse request "REFUSED_IDEMPOTENCY_KEY_CONFLICT" .failed .muOnO executionId
    else
      L.emit request "reconcile.retry"
        { reason := "DUPLICATE_WORK_ORDER_DEDUPLICATED", outcome := some .recover,
          standing := some .alive, extra := executionId }
      some <$> report .recover .alive .autonomous (some existing)

/-- The first gate of a list that stops the run. -/
def firstBlocked : List (LoopM W (Option LoopResult)) → LoopM W (Option LoopResult)
  | [] => pure none
  | gate :: gates => do
    match ← gate with
    | some blocked => return some blocked
    | none => firstBlocked gates

/-- The gates of a run. -/
def gates (request : ExecutionRequest) : LoopM W (Option LoopResult) :=
  firstBlocked [L.authorityGate request, L.feasibilityGate T request, L.resourceGate T request,
    L.dedupeGate C request]

/-! ## Choosing a provider -/

/-- The first of the providers that is available and has what a request needs. -/
def firstCapable (request : ExecutionRequest) : List L.Index → LoopM W (Option L.Index)
  | [] => pure none
  | i :: rest => do
    if ← askOk (L.providers.get i).availability (.availability i) then
      let names ← askOk (L.providers.get i).capabilities (.capabilities i)
      if request.capabilityRequirements ⊆ names then
        let ceiling ← askOk (L.providers.get i).authorityCeiling (.authorityCeiling i)
        if ceilingAtLeast T ceiling request.authority.ceiling then return some i
        else firstCapable request rest
      else firstCapable request rest
    else firstCapable request rest

/-- `_next_capable_index`. -/
def nextCapableIndex (request : ExecutionRequest) (start : ℤ) : LoopM W (Option L.Index) :=
  L.firstCapable T request ((List.finRange L.providers.length).filter fun i => start < (i : ℤ))

/-- `_resolve_fresh` : the subject, or the block of the run. -/
def resolveFresh (request : ExecutionRequest) : LoopM W (SubjectRef ⊕ LoopResult) := do
  match ← attempt (askQuietly ((L.providers.get L.first).resolveSubject request.subject.repo)) with
  | .ok fresh =>
    if fresh.sha ≠ request.subject.sha then
      L.emit request "reconcile.replan"
        { reason := "stale subject sha " ++ short request.subject.sha ++ " -> " ++ short fresh.sha
          outcome := some .replan }
    return .inl fresh
  | .error (.fault fault) =>
    L.emit request "failure.detect" { reason := fault.kind }
    .inr <$> L.typedBlock request "TYPED_BLOCK_SUBJECT_UNRESOLVABLE" .rMissingIdentity
  | .error e => throw e

/-! ## Actuations and receipts -/

/-- `effect.get(key)`, `None` where it is missing. -/
def get? (effect : Payload) (key : String) : Value := (effect.lookup key).getD .null

/-- `str(effect.get(key, ""))`. -/
def text (effect : Payload) (key : String) : String :=
  T.str ((effect.lookup key).getD (.str ""))

/-- `_record_actuation`. -/
def recordActuation (request : ExecutionRequest) (i : L.Index) (pin : ClaimPin) (effect : Payload)
    (witness : String) : LoopM W Unit := do
  let provider ← L.transport i
  let consequence ← raising (T.dict ((effect.lookup "consequence").getD (.dict [])))
  let s ← get
  let sequence := s.actuations.length + 1
  let entry : Actuation := {
    sequence, provider, providerExecutionId := pin.providerExecutionId
    pinnedSubjectSha := pin.pinnedSubjectSha
    declaredSubjectAfterSha := text T effect "subject_after_sha"
    effectDigest := text T effect "effect_digest", consequence, witness }
  modify fun s => { s with actuations := s.actuations ++ [entry] }
  let transport ← L.transport i
  L.emit request "actuation"
    { reason := "actuation " ++ toString sequence ++ " witnessed via " ++ witness
      provider := transport
      extra := [("provider_execution_id", .str pin.providerExecutionId), ("sequence", .int sequence)] }

/-- `_subject_attributable`. -/
def subjectAttributable (observedSha : String) (pin : ClaimPin) (effect : Payload) : Bool :=
  observedSha == pin.pinnedSubjectSha ||
    (get? effect "subject_after_sha" != .null &&
      observedSha == T.str (get? effect "subject_after_sha"))

/-- `provider.current_subject_sha(request.subject.repo)`. -/
def currentSubjectSha (request : ExecutionRequest) (i : L.Index) : LoopM W String :=
  askOk ((L.providers.get i).currentSubjectSha request.subject.repo) (.currentSubjectSha i)

/-- `self._verifier.verify(SubjectRef(...), effect_digest, request)`. -/
def verifySubject (request : ExecutionRequest) (sha effectDigest : String) :
    LoopM W (Bool × String) := do
  let subject ← subjectRef request.subject.repo sha
  askOk (L.verify subject effectDigest request) fun verdict => .verify sha effectDigest verdict.1

/-- The event of a verdict. -/
def emitVerification (request : ExecutionRequest) (i : L.Index) (verified : Bool)
    (reason : String) : LoopM W Unit := do
  let provider ← L.transport i
  L.emit request "verification"
    { reason, standing := some (if verified then .alive else .blocked), provider }

/-- `_verify_effect` : the block of the run, or nothing. -/
def verifyEffect (request : ExecutionRequest) (i : L.Index) (effect : Payload) :
    LoopM W (Option LoopResult) := do
  if truthy (get? effect "effect_digest") = false then
    some <$> L.typedBlock request "TYPED_BLOCK_EFFECT_DIGEST_MISSING" .rMissingConsequence
  else
    let observedSha ← L.currentSubjectSha request i
    let (verified, why) ← L.verifySubject request observedSha (T.str (get? effect "effect_digest"))
    L.emitVerification request i verified ("journal fragment: " ++ why)
    if verified then return none
    else some <$> L.typedBlock request ("TYPED_BLOCK_VERIFICATION_FAILED " ++ why) .verificationFailed

/-- The ledger as a receipt lists it. -/
def dispositions (actuations : List Actuation) (pin : ClaimPin) : List (Actuation × Disposition) :=
  actuations.zipIdx.map fun (entry, index) =>
    (entry, if entry.providerExecutionId = pin.providerExecutionId ∧ index + 1 = actuations.length
      then .admitted else .superseded)

/-- `_build_receipt`. -/
def buildReceipt (request : ExecutionRequest) (i : L.Index) (pin : ClaimPin)
    (subjectBefore : SubjectRef) (effect : Payload) (outcome : LegalOutcome)
    (observedAfterSha : String) : LoopM W ExecutionReceipt := do
  let subjectAfter ← subjectRef request.subject.repo observedAfterSha
  let s ← get
  let ledger := dispositions s.actuations pin
  let ocelDigest ← raising (C.digest (.list (s.events.map OcelEvent.dump)))
  let transport ← L.transport i
  let capabilities ← askQuietly (L.providers.get i).capabilities
  let authorityCeiling ← askQuietly (L.providers.get i).authorityCeiling
  let receiptProtocol ← askQuietly (L.providers.get i).receiptProtocol
  let emittedAtTick ← L.readNow
  let emittedAt ← L.readNow
  let durableProtocol ← askQuietly (L.providers.get i).receiptProtocol
  let durableTransport ← L.transport i
  return {
    workOrderId := request.workOrder
    originAuthority := request.authority
    provider := { transport, capabilities, authorityCeiling, receiptProtocol }
    providerExecutionId := pin.providerExecutionId
    subjectBefore, subjectAfter
    commands := ledger.map fun entry => "execute(" ++ request.workOrder ++ ") via " ++
      entry.1.provider ++ " as " ++ entry.1.providerExecutionId ++ " [" ++ entry.2.value ++ "]"
    consequences := ledger.map fun entry => entry.1.consequence
    evidence := [{ effectDigest := (effect.lookup "effect_digest").getD (.str "")
                   evidenceRequirements := request.evidenceRequirements }]
    exitStatus := if outcome = .recover then "success" else outcome.value
    emittedAtTick := toString emittedAtTick
    emittedAt := "tick:" ++ toString emittedAt
    replayBinding := {
      providerExecutionId := pin.providerExecutionId
      pinnedSubjectSha := pin.pinnedSubjectSha
      durableLocation := durableProtocol ++ "://" ++ durableTransport ++ "/" ++
        pin.providerExecutionId
      idempotencyKey := request.idempotencyKey }
    ext := { outcome, ocelDigest, actuationCount := ledger.length, actuations := ledger } }

/-- `self._completed[key] = (digest, receipt)`. -/
def complete (request : ExecutionRequest) (receipt : ExecutionReceipt) : LoopM W Unit := do
  let digest ← raising (requestDigest C request)
  modify fun s => { s with
    completed := Function.update s.completed request.idempotencyKey (some (digest, receipt)) }

/-- The receipt is announced and the run ends. -/
def admitReceipt (request : ExecutionRequest) (i : L.Index) (receipt : ExecutionReceipt)
    (reason : String) : LoopM W LoopResult := do
  complete C request receipt
  let provider ← L.transport i
  L.emit request "receipt.emit"
    { reason, outcome := some .recover, standing := some .alive, provider }
  report .recover .alive .autonomous (some receipt)

/-! ## One iteration

An iteration continues with new variables (`inl`) or ends the run (`inr`). -/

/-- What an iteration comes to. -/
abbrev Next := LoopVars L.providers.length ⊕ LoopResult

/-- `_on_transport_fault`. -/
def onTransportFault (request : ExecutionRequest) (fault : TransportFault) (attempts : ℕ)
    (provider : String) : LoopM W Unit := do
  if fault.kind = "rate_limit" then
    askQuietly (L.advance (min (2 ^ attempts) 8 * fault.retryAfterTicks))
  L.emit request "failure.detect" { reason := fault.kind ++ " (backoff scheduled)", provider }

/-- Back off and retry on the same provider. -/
def backoff (request : ExecutionRequest) (v : LoopVars L.providers.length) (fault : TransportFault) :
    LoopM W L.Next := do
  let provider ← L.transport v.providerIndex
  L.emit request "reconcile.retry"
    { reason := "backoff " ++ toString fault.retryAfterTicks ++ " ticks after " ++ fault.kind
      outcome := some .recover, provider }
  askQuietly (L.advance fault.retryAfterTicks)
  return .inl v

/-- Substitute the next capable provider, with a fresh retry budget, if the switches allow it. -/
def substitute (request : ExecutionRequest) (v : LoopVars L.providers.length)
    (fault : TransportFault) : LoopM W L.Next := do
  let switched ← L.nextCapableIndex T request v.providerIndex
  match switched, decide (v.switches < request.resourceConstraints.maxProviderSwitches) with
  | some i, true =>
    let v := { v with
      switches := v.switches + 1, faultsOnProvider := 0, attempts := 0, providerIndex := i }
    let provider ← L.transport i
    L.emit request "provider.replace"
      { reason := "provider.replace after " ++ fault.kind, outcome := some .substitute, provider }
    return .inl v
  | _, _ =>
    .inr <$> L.typedBlock request "TYPED_BLOCK_PROVIDER_UNAVAILABLE" .providerUnavailable

/-- Bounded retries on the same provider, then a substitution. -/
def retryOrSubstitute (request : ExecutionRequest) (v : LoopVars L.providers.length)
    (fault : TransportFault) : LoopM W L.Next :=
  if v.faultsOnProvider ≤ request.resourceConstraints.maxRetries then L.backoff request v fault
  else L.substitute T request v fault

/-- `claim` raised a fault. -/
def claimFaulted (request : ExecutionRequest) (v : LoopVars L.providers.length)
    (fault : TransportFault) : LoopM W L.Next := do
  let provider ← L.transport v.providerIndex
  L.onTransportFault request fault v.attempts provider
  L.retryOrSubstitute T request { v with faultsOnProvider := v.faultsOnProvider + 1 } fault

/-- `execute` raised a fault that is no crash. -/
def executeFaulted (request : ExecutionRequest) (v : LoopVars L.providers.length)
    (fault : TransportFault) : LoopM W L.Next := do
  let provider ← L.transport v.providerIndex
  L.emit request "failure.detect" { reason := fault.kind, provider }
  L.retryOrSubstitute T request { v with faultsOnProvider := v.faultsOnProvider + 1 } fault

/-- The subject moved : replan within the budget of moves. -/
def replan (request : ExecutionRequest) (v : LoopVars L.providers.length) (reason : String)
    (rest : LoopVars L.providers.length → LoopM W L.Next) (block : String) (broken : BrokenTerm) :
    LoopM W L.Next := do
  let v := { v with moves := v.moves + 1 }
  if request.resourceConstraints.maxSubjectMoves < v.moves then
    .inr <$> L.typedBlock request block broken
  else
    let provider ← L.transport v.providerIndex
    L.emit request "reconcile.replan" { reason, outcome := some .replan, provider }
    rest v

/-- Resolve the subject again and continue. -/
def continueFresh (request : ExecutionRequest) (v : LoopVars L.providers.length) :
    LoopM W L.Next := do
  match ← L.resolveFresh request with
  | .inl _ => return .inl v
  | .inr blocked => return .inr blocked

/-- The journal of a worker that crashed after its actuation. -/
def reconstruct (request : ExecutionRequest) (v : LoopVars L.providers.length) (pin : ClaimPin) :
    LoopM W L.Next := do
  let i := v.providerIndex
  match ← askOk ((L.providers.get i).fetchReceipt pin.providerExecutionId) (.fetchReceipt i) with
  | none => .inr <$> L.typedBlock request "TYPED_BLOCK_RECEIPT_LOST" .rMissingConsequence
  | some fragment =>
    L.recordActuation T request i pin fragment "provider journal"
    let journalSha ← L.currentSubjectSha request i
    if subjectAttributable T journalSha pin fragment = false then
      L.replan request v ("subject moved after journaled actuation " ++
          short pin.pinnedSubjectSha ++ "->" ++ short journalSha)
        (L.continueFresh request) "TYPED_BLOCK_MOVING_SUBJECT" .subjectUnstable
    else
      match ← L.verifyEffect T request i fragment with
      | some unverified => return .inr unverified
      | none =>
        askQuietly (L.advance 1)
        let receipt ← L.buildReceipt C request i pin v.subjectBefore fragment .recover journalSha
        .inr <$> L.admitReceipt C request i receipt "reconstructed from provider journal"

/-- `execute` raised a crash. -/
def crashed (request : ExecutionRequest) (v : LoopVars L.providers.length) (pin : ClaimPin)
    (crash : TransportFault) (injectionPoint : String) : LoopM W L.Next := do
  let provider ← L.transport v.providerIndex
  L.emit request "execution.crash" { reason := "worker SIGKILL at " ++ injectionPoint, provider }
  let provider ← L.transport v.providerIndex
  L.emit request "failure.detect" { reason := "lease/liveness loss detected", provider }
  if crash.appliedBefore then L.reconstruct C T request v pin
  else
    let provider ← L.transport v.providerIndex
    L.emit request "reconcile.retry"
      { reason := "crash before actuation; retrying", outcome := some .recover, provider }
    askQuietly (L.advance 1)
    return .inl v

/-- The retries of a verification that failed, at most so many. -/
def verifyAgain (request : ExecutionRequest) (i : L.Index) (sha effectDigest : String) :
    ℕ → Bool × String → LoopM W (Bool × String)
  | 0, verdict => pure verdict
  | retries + 1, verdict => do
    if verdict.1 then return verdict
    else
      let provider ← L.transport i
      L.emit request "failure.detect"
        { reason := "verifier rejected: " ++ verdict.2 ++ " (retry " ++
            toString (request.resourceConstraints.maxRetries - retries) ++ ")"
          provider }
      askQuietly (L.advance 1)
      let verdict ← L.verifySubject request sha effectDigest
      verifyAgain request i sha effectDigest retries verdict

/-- `ack`, with a lost acknowledgement recovered. -/
def acknowledge (request : ExecutionRequest) (i : L.Index) (pin : ClaimPin)
    (receipt : ExecutionReceipt) : LoopM W Unit := do
  match ← attempt (askQuietly ((L.providers.get i).ack receipt)) with
  | .ok () => return ()
  | .error (.fault _) =>
    let durable ← askOk ((L.providers.get i).fetchReceipt pin.providerExecutionId) (.fetchReceipt i)
    let provider ← L.transport i
    L.emit request "reconcile.retry"
      { reason := if durable ≠ none then "ACK lost; receipt recovered via replay binding"
          else "ACK lost; receipt retained loop-side via replay binding"
        outcome := some .recover, provider }
  | .error e => throw e

/-- `execute` returned an effect. -/
def executed (request : ExecutionRequest) (v : LoopVars L.providers.length) (pin : ClaimPin)
    (effect : Payload) : LoopM W L.Next := do
  let i := v.providerIndex
  L.recordActuation T request i pin effect "execute"
  let observedSha ← L.currentSubjectSha request i
  if subjectAttributable T observedSha pin effect = false then
    L.replan request v ("subject moved " ++ short pin.pinnedSubjectSha ++ "->" ++ short observedSha)
      (fun v => do
        let subjectBefore ← subjectRef request.subject.repo pin.pinnedSubjectSha
        L.continueFresh request { v with subjectBefore })
      "TYPED_BLOCK_MOVING_SUBJECT" .subjectUnstable
  else if truthy (get? effect "effect_digest") = false then
    .inr <$> L.typedBlock request "TYPED_BLOCK_EFFECT_DIGEST_MISSING" .rMissingConsequence
  else
    let effectDigest := text T effect "effect_digest"
    let first ← L.verifySubject request observedSha effectDigest
    let (verified, why) ← L.verifyAgain request i observedSha effectDigest
      request.resourceConstraints.maxRetries first
    L.emitVerification request i verified why
    if verified = false then
      .inr <$> L.typedBlock request ("TYPED_BLOCK_VERIFICATION_FAILED " ++ why) .verificationFailed
    else
      let postSha ← L.currentSubjectSha request i
      if postSha ≠ observedSha then
        L.replan request v "silent external state mutation detected post-verify"
          (fun v => return .inl v) "TYPED_BLOCK_SILENT_MUTATION" .subjectStale
      else
        askQuietly (L.advance 1)
        let receipt ← L.buildReceipt C request i pin v.subjectBefore effect .recover postSha
        L.acknowledge request i pin receipt
        .inr <$> L.admitReceipt C request i receipt "verified"

/-- Whether the attempts or the deadline are exceeded. -/
def exhausted (request : ExecutionRequest) (v : LoopVars L.providers.length) : LoopM W Bool :=
  if request.resourceConstraints.maxRetries < v.attempts then pure true
  else do
    let now ← L.readNow
    return decide ((request.resourceConstraints.deadlineTicks : ℤ) ≤ now)

/-- A claim was granted : execute it, and go on from what comes of it. -/
def claimed (request : ExecutionRequest) (v : LoopVars L.providers.length) (pin : ClaimPin) :
    LoopM W L.Next := do
  let i := v.providerIndex
  let provider ← L.transport i
  L.emit request "execution.claim"
    { reason := "claimed " ++ pin.providerExecutionId ++ " pinned sha=" ++ short pin.pinnedSubjectSha
      provider }
  match ← L.expiryGate request with
  | some expired => return .inr expired
  | none =>
    let effect ← attempt (ask ((L.providers.get i).execute request pin.providerExecutionId)
      fun answer => [.execute i answer])
    match effect with
    | .ok effect => L.executed C T request v pin effect
    | .error (.fault fault) =>
      match fault.injectionPoint with
      | some point => L.crashed C T request v pin fault point
      | none => L.executeFaulted T request v fault
    | .error e => throw e

/-- One iteration of `while True`. -/
def iteration (request : ExecutionRequest) (v : LoopVars L.providers.length) : LoopM W L.Next := do
  if ← L.exhausted request v then
    .inr <$> L.typedBlock request "TYPED_BLOCK_BUDGET_EXHAUSTED" .providerUnavailable
  else
    match ← L.expiryGate request with
    | some expired => return .inr expired
    | none =>
      let v := { v with attempts := v.attempts + 1 }
      let i := v.providerIndex
      let pin ← attempt (ask ((L.providers.get i).claim request) fun answer => [.claim i answer])
      match pin with
      | .ok pin => L.claimed C T request v pin
      | .error (.fault fault) => L.claimFaulted T request v fault
      | .error e => throw e

/-! ## Runs -/

/-- `_run`, of at most `fuel` iterations. -/
def runOnce (fuel : ℕ) (request : ExecutionRequest) : LoopM W LoopResult := do
  modify fun s => { s with events := [], actuations := [] }
  match ← L.gates C T request with
  | some blocked => return blocked
  | none =>
    L.emit request "execution.start" { standing := some .unknown }
    match ← L.resolveFresh request with
    | .inr blocked => return blocked
    | .inl subjectBefore =>
      match ← L.nextCapableIndex T request (-1) with
      | none => L.typedBlock request "TYPED_BLOCK_DEPENDENCY_OUTAGE" .dependencyOutage
      | some providerIndex =>
        iterate (L.iteration C T request) fuel { subjectBefore, providerIndex }

/-- `run`, of at most `fuel` iterations. -/
def run (fuel : ℕ) (request : ExecutionRequest) : LoopM W LoopResult := do
  let result ← L.runOnce C T fuel request
  if result.receipt = none ∧ 0 < result.actuationCount then
    let digest ← raising (requestDigest C request)
    modify fun s =>
      let entry := (digest, result.typedReason.getD "",
        (result.brokenTerm.map (·.value)).getD "", result.actuations)
      { s with
        unreconciled := Function.update s.unreconciled request.idempotencyKey (some entry) }
  return result

end AutonomousLoop

end GymAct.ExecutionLoop
