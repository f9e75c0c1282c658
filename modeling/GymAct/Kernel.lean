import GymAct.Coop
import GymAct.Evidence

/-!
# The kernel

The operations of `GymAct` in `kernel.py`, each a cooperative program over the kernel's
own tables (`World`). What stands outside is called and answers : the authority
resolver, the providers and their environments (`Call`). An awaited call can time out,
and any call can raise (`ProviderError`); the timers themselves are outside.

The parts a deployment injects are the `Runtime` : the canonicalization, the limits, the
ledger, the capability scope, the verifier, the SHACL validation of capabilities, and
the sources of identifiers and time. `promotes` tells `runtime.GymAct`, which turns a
failed canonicalization into a typed refusal, from the base class, which lets it through.

A provider call carries the place it is made from (`Site`), which the provider does not
see : it lets a run be read back.
-/

namespace GymAct

open Coop Coop.Prog

/-! ## Interface -/

/-- Exceptions a kernel operation can end in. -/
inductive Exc
  /-- `BoundaryBlocked`. -/
  | boundaryBlocked (code : String)
  /-- Raised by a collaborator. -/
  | provider (e : PyError)
  | keyError (message : String)
  | valueError (message : String)
  | canonicalization (e : PyError)
  /-- Raised by the ledger's `append`. -/
  | ledger (e : LedgerError)
  deriving DecidableEq, Repr

namespace Exc

/-- `type(exc).__name__` and `str(exc)`. -/
def describe : Exc → PyError
  | boundaryBlocked code => ⟨"BoundaryBlocked", code⟩
  | provider e => e
  | keyError message => ⟨"KeyError", message⟩
  | valueError message => ⟨"ValueError", message⟩
  | canonicalization e => e
  | ledger .receiptIdConflict => ⟨"ValueError", "RECEIPT_ID_CONFLICT"⟩
  | ledger .idempotencyKeyReuse =>
    ⟨"ValueError", "IDEMPOTENCY_KEY_REUSE_WITH_DIFFERENT_INTENT"⟩
  | ledger (.canonicalization e) => e
  | ledger (.other e) => e

/-- The reason of a receipt for a failure behind the boundary. -/
def reason : Exc → String
  | boundaryBlocked code => code
  | e => "PROVIDER_ERROR:" ++ e.describe.type

/-- The reason of a receipt for an environment that is not admitted. -/
def admissionReason : Exc → String
  | boundaryBlocked code => code
  | _ => "ENVIRONMENT_ADMISSION_FAILED"

end Exc

/-- How a call to a collaborator fails. -/
inductive ProviderError
  | timeout
  | raised (e : PyError)
  deriving DecidableEq, Repr

/-- A registered provider. -/
structure Provider where
  name : String
  materializationRequiresAuthority : Bool
  deriving DecidableEq, Repr

/-- A materialized environment : the object, and the attributes the kernel reads. -/
structure Environment where
  handle : ℕ
  environmentId : String
  requiresAuthority : Bool
  deriving DecidableEq, Repr

/-- The operation a consequential provider call is made from. -/
inductive Site
  | materialize (key : String)
  | act (episodeId key : String)
  | read (episodeId : String)
  | restore (episodeId : String)
  | teardown (episodeId : String)
  deriving DecidableEq, Repr

/-- The calls to the outside. -/
inductive Call
  | authorize (request : AuthorityRequest)
  | materialize (site : Site) (provider : String) (scenario : Option String) (config : Payload)
  | capabilities (env : Environment)
  | observe (env : Environment)
  | actuate (site : Site) (env : Environment) (capability : Capability) (payload : Payload)
  | verify (env : Environment) (expected : Payload)
  | checkpoint (env : Environment)
  | restore (site : Site) (env : Environment) (checkpoint : Payload)
  | teardown (site : Site) (env : Environment)
  deriving DecidableEq, Repr

/-- What each call answers when it does not fail. -/
@[reducible] def Call.Value : Call → Type
  | authorize _ => AuthorityDecision
  | materialize .. => Environment
  | capabilities _ => List Capability
  | observe _ | actuate .. | checkpoint _ => Payload
  | verify .. => Bool × Payload
  | restore .. | teardown .. => Unit

@[reducible] def Call.Reply (c : Call) : Type := Except ProviderError c.Value

inductive LockId
  | materialization
  | episode (episodeId : String)
  deriving DecidableEq, Repr

/-- `_EpisodeState`; its lock is `LockId.episode` of the episode. -/
structure EpisodeState where
  episode : Episode
  environment : Environment
  deriving DecidableEq, Repr

structure ActuationRecord where
  intentDigest : String
  result : ActuationResult
  deriving DecidableEq, Repr

structure MaterializationRecord where
  intentDigest : String
  result : MaterializationResult
  deriving DecidableEq, Repr

/-- The tables of one `GymAct`, and how many identifiers it has drawn. -/
structure World (Λ : Type) where
  providers : Dict Provider := fun _ => none
  episodes : Dict EpisodeState := fun _ => none
  actuationIdempotency : String × String → Option ActuationRecord := fun _ => none
  materializationIdempotency : Dict MaterializationRecord := fun _ => none
  teardownReceipts : Dict Receipt := fun _ => none
  receipts : String → List Receipt := fun _ => []
  ledger : Λ
  verifications : List VerificationResult := []
  supply : ℕ := 0

@[reducible] def kernelSig (Λ : Type) : Sig where
  State := World Λ
  Lock := LockId
  Call := Call
  Reply := Call.Reply
  Err := Exc

/-- A kernel operation. -/
abbrev M (Λ α : Type) := Prog (kernelSig Λ) α

/-- What a deployment injects. -/
structure Runtime (Λ : Type) where
  canon : Canon
  limits : RuntimeLimits := {}
  /-- `runtime.GymAct`, as opposed to the base class. -/
  promotes : Bool := true
  /-- `ReceiptLedger.append`. -/
  append : Λ → Receipt → Except LedgerError Λ
  /-- `CapabilityScope.permits`. -/
  permits : (principal : Option String) → (capabilityRef : String) → Bool := fun _ _ => true
  /-- `PostconditionVerifier.judge`. -/
  judge : (expected observed : Payload) → Bool × String
  /-- `ProfileAuthority.validate_capabilities`. -/
  conforms : List Capability → Bool := fun _ => true
  uuid4 : ℕ → String
  now : ℕ → String

variable {Λ : Type} (rt : Runtime Λ)

/-! ## The consequence boundary -/

/-- `digest`, inside an operation. -/
def digest (v : Value) : M Λ String :=
  Prog.lift ((rt.canon.digest v).mapError .canonicalization)

/-- A value within a limit. `runtime.GymAct` types the canonicalization failure. -/
def ensureWithin (limit : ℕ) (exceeded notCanonical : String) (v : Value) : Except Exc Unit :=
  match rt.canon.canonicalBytes v with
  | .error e => .error (if rt.promotes then .boundaryBlocked notCanonical else .canonicalization e)
  | .ok bytes => if bytes.length > limit then .error (.boundaryBlocked exceeded) else .ok ()

/-- `_ensure_input`. -/
def ensureInput : Value → Except Exc Unit :=
  ensureWithin rt rt.limits.maxInputBytes "INPUT_LIMIT_EXCEEDED" "INPUT_NOT_RFC8785_CANONICAL"

/-- `_ensure_state`. -/
def ensureState : Value → Except Exc Unit :=
  ensureWithin rt rt.limits.maxStateBytes "STATE_LIMIT_EXCEEDED" "STATE_NOT_RFC8785_CANONICAL"

/-- `_ensure_checkpoint`. -/
def ensureCheckpoint : Value → Except Exc Unit :=
  ensureWithin rt rt.limits.maxCheckpointBytes "CHECKPOINT_LIMIT_EXCEEDED"
    "CHECKPOINT_NOT_RFC8785_CANONICAL"

/-- The answer of a collaborator, or its exception. -/
def settle {α : Type} (timedOut : Exc) : Except ProviderError α → Except Exc α
  | .ok a => .ok a
  | .error .timeout => .error timedOut
  | .error (.raised e) => .error (.provider e)

/-- `_bounded` : a timeout becomes `BoundaryBlocked(code)`. -/
def bounded (code : String) (c : Call) : M Λ c.Value := do
  let r ← awaitCall (S := kernelSig Λ) c
  Prog.lift (settle (.boundaryBlocked code) r)

/-- A call that is not awaited. -/
def immediate (c : Call) : M Λ c.Value := do
  let r ← askCall (S := kernelSig Λ) c
  Prog.lift (settle (.provider ⟨"TimeoutError", ""⟩) r)

/-- `error_digest` of a receipt : none for a typed boundary failure. -/
def errorDigest : Exc → M Λ (Option String)
  | .boundaryBlocked _ => pure none
  | e => some <$> digest rt (.dict [("type", .str e.describe.type),
      ("message", .str e.describe.message)])

/-- One identifier more is drawn. -/
def World.drawn (w : World Λ) : World Λ := { w with supply := w.supply + 1 }

/-- `uuid4().hex`. -/
def uuid4 : M Λ String := do
  let w ← getState
  modify World.drawn
  pure (rt.uuid4 w.supply)

/-- Construct a `Receipt` : its id and time are drawn. -/
def stamp (receipt : Receipt) : M Λ Receipt := do
  let w ← getState
  modify World.drawn
  pure (receipt.stamped (rt.uuid4 w.supply) (rt.now w.supply))

/-- The world once a receipt is in the ledger. -/
def World.recorded (w : World Λ) (ledger : Λ) (receipt : Receipt) : World Λ :=
  { w with
    ledger
    receipts := Function.update w.receipts receipt.episodeId
      (w.receipts receipt.episodeId ++ [receipt]) }

/-- `_record`. -/
def record (receipt : Receipt) : M Λ Receipt := do
  let w ← getState
  let ledger ← Prog.lift ((rt.append w.ledger receipt).mapError .ledger)
  modify fun w => w.recorded ledger receipt
  pure receipt

/-- `_authority_decision`. The request validates its own canonical form. -/
def authorityDecision (required : Bool) (request : AuthorityRequest) : M Λ AuthorityDecision :=
  if required then
    match rt.canon.canonicalBytes request.modelDump with
    | .error _ => raise (.valueError "INPUT_NOT_RFC8785_CANONICAL")
    | .ok _ => bounded "AUTHORITY_TIMEOUT" (.authorize request)
  else pure { admitted := true, reason := "AUTHORITY_NOT_REQUIRED" }

/-- `_state`. -/
def state (episodeId : String) : M Λ EpisodeState := do
  let w ← getState
  match w.episodes episodeId with
  | some st => pure st
  | none => raise (.keyError ("unknown episode: " ++ episodeId))

/-- `_observe_unlocked`. -/
def observeUnlocked (st : EpisodeState) : M Λ Observation := do
  let value ← bounded "OBSERVATION_TIMEOUT" (.observe st.environment)
  Prog.lift (ensureState rt (.dict value))
  let d ← digest rt (.dict value)
  pure ⟨st.episode.episodeId, value, d⟩

/-- A second look after a failure : the earlier observation when that fails too. -/
def observeOr (st : EpisodeState) (before : Observation) : M Λ Observation := do
  match ← attempt (observeUnlocked rt st) with
  | .ok after => pure after
  | .error _ => pure before

/-- `{item.iri: item for item in capabilities}.get(ref)` : the last one of that IRI. -/
def capabilityNamed (capabilities : List Capability) (ref : String) : Option Capability :=
  capabilities.reverse.find? fun c => c.iri == ref

/-! ## Materialization -/

/-- The capability reference of the kernel's own operations. -/
def operationRef (name : String) : String := "urn:gymact:operation:" ++ name

/-- The world once a materialization is cached. -/
def World.cacheMaterialization (w : World Λ) (key : String) (entry : MaterializationRecord) :
    World Λ :=
  { w with
    materializationIdempotency := Function.update w.materializationIdempotency key (some entry) }

/-- `_materialization_result`. -/
def materializationResult (intentDigest key : String) (result : MaterializationResult)
    (cache : Bool := true) : M Λ MaterializationResult := do
  let _ ← record rt result.receipt
  modify fun w => if cache then w.cacheMaterialization key ⟨intentDigest, result⟩ else w
  pure result

section Materialize

variable (intent : MaterializationIntent) (intentDigest : String)

/-- Construct the receipt of a materialization and return through `_materialization_result`. -/
def materializationExit (receipt : Receipt) (result : Receipt → MaterializationResult)
    (cache : Bool := true) : M Λ MaterializationResult := do
  let receipt ← stamp rt receipt
  materializationResult rt intentDigest intent.idempotencyKey (result receipt) cache

/-- A materialization that is not accepted : the receipt gives the standing. -/
def materializationRefusal (receipt : Receipt) (cache : Bool := true) :
    M Λ MaterializationResult :=
  materializationExit rt intent intentDigest receipt
    (fun receipt => { accepted := false, standing := receipt.standing, receipt }) cache

/-- `subject_ref` before there is an environment. -/
def providerRef (provider : String) : String := "urn:gymact:provider:" ++ provider

/-- What an environment has to do to be admitted : conforming capabilities, and a first
state within the limits. -/
def environmentAdmission (env : Environment) : M Λ Payload := do
  let capabilities ← immediate (.capabilities env)
  if rt.conforms capabilities then
    let initialState ← bounded "OBSERVATION_TIMEOUT" (.observe env)
    Prog.lift (ensureState rt (.dict initialState))
    pure initialState
  else raise (.valueError "provider capabilities do not conform to GymAct profile")

/-- Register the episode of an admitted environment. -/
def registerEpisode (episodeId : String) (authority : AuthorityDecision) (env : Environment)
    (initialState : Payload) : M Λ MaterializationResult := do
  let episode : Episode :=
    { episodeId, provider := intent.provider, environmentId := env.environmentId,
      scenario := intent.scenario }
  modify fun w => { w with episodes := Function.update w.episodes episodeId (some ⟨episode, env⟩) }
  let stateDigest ← digest rt (.dict initialState)
  let observation : Observation := ⟨episodeId, initialState, stateDigest⟩
  materializationExit rt intent intentDigest
    { episodeId, operation := .materialize, standing := .alive,
      subjectRef := some env.environmentId, capabilityRef := some (operationRef "materialize"),
      authorityRef := intent.authorityRef, authorityEvidenceRef := authority.evidenceRef,
      idempotencyKey := some intent.idempotencyKey, principal := intent.principal,
      postStateDigest := some stateDigest }
    fun receipt =>
      { accepted := true, standing := .alive, episode := some episode,
        observation := some observation, receipt }

/-- The environment exists : admit it, or tear it down. -/
def admitEnvironment (episodeId : String) (authority : AuthorityDecision) (env : Environment) :
    M Λ MaterializationResult := do
  match ← attempt (environmentAdmission rt env) with
  | .error exc =>
    let _ ← attempt (bounded "TEARDOWN_TIMEOUT" (.teardown (.materialize intent.idempotencyKey) env))
    let errorDigest ← errorDigest rt exc
    materializationRefusal rt intent intentDigest
      { episodeId, operation := .materialize, standing := .blocked,
        subjectRef := some env.environmentId, capabilityRef := some (operationRef "materialize"),
        authorityRef := intent.authorityRef, authorityEvidenceRef := authority.evidenceRef,
        idempotencyKey := some intent.idempotencyKey, principal := intent.principal,
        errorDigest, reason := some exc.admissionReason }
  | .ok initialState => registerEpisode rt intent intentDigest episodeId authority env initialState

/-- Authority is admitted : ask the provider. -/
def materializeAdmitted (episodeId : String) (authority : AuthorityDecision) :
    M Λ MaterializationResult := do
  match ← attempt (bounded "MATERIALIZATION_TIMEOUT"
      (.materialize (.materialize intent.idempotencyKey) intent.provider intent.scenario
        intent.config)) with
  | .error exc =>
    let errorDigest ← errorDigest rt exc
    materializationRefusal rt intent intentDigest
      { episodeId, operation := .materialize, standing := .blocked,
        subjectRef := some (providerRef intent.provider),
        capabilityRef := some (operationRef "materialize"),
        authorityRef := intent.authorityRef, authorityEvidenceRef := authority.evidenceRef,
        idempotencyKey := some intent.idempotencyKey, principal := intent.principal,
        errorDigest, reason := some exc.reason }
  | .ok env => admitEnvironment rt intent intentDigest episodeId authority env

/-- The provider is known : ask for authority. -/
def materializeAuthorized (episodeId : String) (provider : Provider) :
    M Λ MaterializationResult := do
  let subjectRef := providerRef intent.provider
  match ← attempt (authorityDecision rt provider.materializationRequiresAuthority
      { episodeId, subjectRef, operation := .materialize,
        capabilityRef := operationRef "materialize",
        payload := [("scenario", .ofOption intent.scenario), ("config", .dict intent.config)],
        authorityRef := intent.authorityRef }) with
  | .error (.boundaryBlocked code) =>
    materializationRefusal rt intent intentDigest
      { episodeId, operation := .materialize, standing := .blocked,
        subjectRef := some subjectRef, capabilityRef := some (operationRef "materialize"),
        authorityRef := intent.authorityRef, idempotencyKey := some intent.idempotencyKey,
        principal := intent.principal, reason := some code }
  | .error e => raise e
  | .ok authority =>
    if authority.admitted then materializeAdmitted rt intent intentDigest episodeId authority
    else
      materializationRefusal rt intent intentDigest
        { episodeId, operation := .materialize, standing := .refused,
          subjectRef := some subjectRef, capabilityRef := some (operationRef "materialize"),
          authorityRef := intent.authorityRef, authorityEvidenceRef := authority.evidenceRef,
          idempotencyKey := some intent.idempotencyKey, principal := intent.principal,
          reason := some authority.reason }

/-- The key is new : the input limit, then the provider. -/
def materializeFresh (episodeId : String) : M Λ MaterializationResult := do
  let subjectRef := providerRef intent.provider
  match ensureInput rt
      (.dict [("scenario", .ofOption intent.scenario), ("config", .dict intent.config)]) with
  | .error (.boundaryBlocked code) =>
    materializationRefusal rt intent intentDigest
      { episodeId, operation := .materialize, standing := .refused,
        subjectRef := some subjectRef, capabilityRef := some (operationRef "materialize"),
        idempotencyKey := some intent.idempotencyKey, principal := intent.principal,
        reason := some code }
  | .error e => raise e
  | .ok () =>
    let w ← getState
    match w.providers intent.provider with
    | none =>
      materializationRefusal rt intent intentDigest
        { episodeId, operation := .materialize, standing := .unsupported,
          subjectRef := some subjectRef, capabilityRef := some (operationRef "materialize"),
          authorityRef := intent.authorityRef, idempotencyKey := some intent.idempotencyKey,
          principal := intent.principal, reason := some "UNKNOWN_PROVIDER" }
    | some provider => materializeAuthorized rt intent intentDigest episodeId provider

/-- The body of `materialize` under the materialization lock. -/
def materializeLocked : M Λ MaterializationResult := do
  let w ← getState
  match w.materializationIdempotency intent.idempotencyKey with
  | some cached =>
    if cached.intentDigest = intentDigest then pure cached.result
    else
      materializationRefusal rt intent intentDigest
        { episodeId := cached.result.receipt.episodeId, operation := .materialize,
          standing := .refused, subjectRef := cached.result.receipt.subjectRef,
          capabilityRef := some (operationRef "materialize"), authorityRef := intent.authorityRef,
          idempotencyKey := some intent.idempotencyKey, principal := intent.principal,
          reason := some "IDEMPOTENCY_KEY_CONFLICT" } false
  | none =>
    let episodeId ← uuid4 rt
    materializeFresh rt intent intentDigest episodeId

end Materialize

/-- `materialize`. -/
def materialize (intent : MaterializationIntent) : M Λ MaterializationResult := do
  let intentDigest ← digest rt intent.modelDump
  withLock (S := kernelSig Λ) .materialization (materializeLocked rt intent intentDigest)

/-! ## Actuation -/

/-- The world once an actuation is cached. -/
def World.cacheActuation (w : World Λ) (key : String × String) (entry : ActuationRecord) :
    World Λ :=
  { w with actuationIdempotency := Function.update w.actuationIdempotency key (some entry) }

/-- `_actuation_result`. -/
def actuationResult (intentDigest : String) (key : String × String) (result : ActuationResult)
    (cache : Bool := true) : M Λ ActuationResult := do
  let _ ← record rt result.receipt
  modify fun w => if cache then w.cacheActuation key ⟨intentDigest, result⟩ else w
  pure result

section Act

variable (intent : ActuationIntent) (intentDigest : String) (st : EpisodeState)

/-- `key` of `act`. -/
def actKey : String × String := (intent.episodeId, intent.idempotencyKey)

/-- Construct the receipt of an actuation and return through `_actuation_result`. -/
def actuationExit (receipt : Receipt) (result : Receipt → ActuationResult)
    (cache : Bool := true) : M Λ ActuationResult := do
  let receipt ← stamp rt receipt
  actuationResult rt intentDigest (actKey intent) (result receipt) cache

/-- An actuation that is not accepted : the receipt gives the standing. -/
def actuationRefusal (observation : Observation) (receipt : Receipt) (cache : Bool := true) :
    M Λ ActuationResult :=
  actuationExit rt intent intentDigest receipt
    (fun receipt =>
      { accepted := false, standing := receipt.standing, observation := some observation, receipt })
    cache

/-- The provider call of `act` with the two looks that follow it. -/
def actuateAndObserve (capability : Capability) : M Λ (Payload × Observation) := do
  let effect ← bounded "ACTUATION_TIMEOUT"
    (.actuate (.act intent.episodeId intent.idempotencyKey) st.environment capability intent.payload)
  Prog.lift (ensureState rt (.dict effect))
  let after ← observeUnlocked rt st
  pure (effect, after)

/-- Authority is admitted : actuate, and receipt what happened. -/
def actAdmitted (before : Observation) (capability : Capability) (authority : AuthorityDecision) :
    M Λ ActuationResult := do
  match ← attempt (actuateAndObserve rt intent st capability) with
  | .error exc =>
    let after ← observeOr rt st before
    let errorDigest ← errorDigest rt exc
    actuationRefusal rt intent intentDigest after
      { episodeId := intent.episodeId, operation := .act, standing := .blocked,
        subjectRef := some st.environment.environmentId, capabilityRef := some capability.iri,
        authorityRef := intent.authorityRef, authorityEvidenceRef := authority.evidenceRef,
        idempotencyKey := some intent.idempotencyKey, principal := intent.principal,
        preStateDigest := some before.stateDigest, postStateDigest := some after.stateDigest,
        errorDigest, reason := some exc.reason }
  | .ok (effect, after) =>
    actuationExit rt intent intentDigest
      { episodeId := intent.episodeId, operation := .act, standing := .alive,
        subjectRef := some st.environment.environmentId, capabilityRef := some capability.iri,
        authorityRef := intent.authorityRef, authorityEvidenceRef := authority.evidenceRef,
        idempotencyKey := some intent.idempotencyKey, principal := intent.principal,
        preStateDigest := some before.stateDigest, postStateDigest := some after.stateDigest,
        costs := capability.costs.map fun c => { c with kind := .observedActual } }
      fun receipt =>
        { accepted := true, standing := .alive, effect := some effect, observation := some after,
          receipt }

/-- The capability may be invoked : ask for authority. -/
def actAuthorized (before : Observation) (capability : Capability) : M Λ ActuationResult := do
  match ← attempt (authorityDecision rt st.environment.requiresAuthority
      { episodeId := intent.episodeId, subjectRef := st.environment.environmentId,
        operation := .act, capabilityRef := capability.iri, payload := intent.payload,
        authorityRef := intent.authorityRef }) with
  | .error (.boundaryBlocked code) =>
    actuationRefusal rt intent intentDigest before
      { episodeId := intent.episodeId, operation := .act, standing := .blocked,
        subjectRef := some st.environment.environmentId, capabilityRef := some capability.iri,
        authorityRef := intent.authorityRef, idempotencyKey := some intent.idempotencyKey,
        principal := intent.principal, preStateDigest := some before.stateDigest,
        postStateDigest := some before.stateDigest, reason := some code }
  | .error e => raise e
  | .ok authority =>
    if authority.admitted then actAdmitted rt intent intentDigest st before capability authority
    else
      actuationRefusal rt intent intentDigest before
        { episodeId := intent.episodeId, operation := .act, standing := .refused,
          subjectRef := some st.environment.environmentId, capabilityRef := some capability.iri,
          authorityRef := intent.authorityRef, authorityEvidenceRef := authority.evidenceRef,
          idempotencyKey := some intent.idempotencyKey, principal := intent.principal,
          preStateDigest := some before.stateDigest, postStateDigest := some before.stateDigest,
          reason := some authority.reason }

/-- A refusal of `act` at its capability gates. -/
def capabilityRefusal (before : Observation) (standing : Standing) (capabilityRef reason : String) :
    M Λ ActuationResult :=
  actuationRefusal rt intent intentDigest before
    { episodeId := intent.episodeId, operation := .act, standing := standing,
      subjectRef := some st.environment.environmentId, capabilityRef := some capabilityRef,
      authorityRef := intent.authorityRef, idempotencyKey := some intent.idempotencyKey,
      principal := intent.principal, preStateDigest := some before.stateDigest,
      postStateDigest := some before.stateDigest, reason := some reason }

/-- The input is within its limit : the capability gates. -/
def actCapable (before : Observation) : M Λ ActuationResult := do
  let capabilities ← immediate (.capabilities st.environment)
  match capabilityNamed capabilities intent.capability with
  | none =>
    capabilityRefusal rt intent intentDigest st before .unsupported intent.capability
      "UNKNOWN_CAPABILITY"
  | some capability =>
    if capability.consequence ≠ .do then
      capabilityRefusal rt intent intentDigest st before .refused capability.iri
        "READ_CAPABILITY_IS_NOT_ACTUATION"
    else if rt.permits intent.principal capability.iri = false then
      capabilityRefusal rt intent intentDigest st before .refused capability.iri
        "CAPABILITY_NOT_IN_SCOPE"
    else actAuthorized rt intent intentDigest st before capability

/-- The key is new : a first look, then the input limit. -/
def actFresh : M Λ ActuationResult := do
  let before ← observeUnlocked rt st
  match ensureInput rt (.dict intent.payload) with
  | .error (.boundaryBlocked code) =>
    actuationRefusal rt intent intentDigest before
      { episodeId := intent.episodeId, operation := .act, standing := .refused,
        subjectRef := some st.environment.environmentId, capabilityRef := some intent.capability,
        idempotencyKey := some intent.idempotencyKey, principal := intent.principal,
        preStateDigest := some before.stateDigest, postStateDigest := some before.stateDigest,
        reason := some code }
  | .error e => raise e
  | .ok () => actCapable rt intent intentDigest st before

/-- The key was used with another intent. -/
def actConflict : M Λ ActuationResult := do
  let before ← observeUnlocked rt st
  actuationRefusal rt intent intentDigest before
    { episodeId := intent.episodeId, operation := .act, standing := .refused,
      subjectRef := some st.environment.environmentId, capabilityRef := some intent.capability,
      authorityRef := intent.authorityRef, idempotencyKey := some intent.idempotencyKey,
      principal := intent.principal, preStateDigest := some before.stateDigest,
      postStateDigest := some before.stateDigest, reason := some "IDEMPOTENCY_KEY_CONFLICT" } false

/-- The body of `act` under the episode's lock. -/
def actLocked : M Λ ActuationResult := do
  let w ← getState
  match w.actuationIdempotency (actKey intent) with
  | some cached =>
    if cached.intentDigest = intentDigest then pure cached.result
    else actConflict rt intent intentDigest st
  | none => actFresh rt intent intentDigest st

end Act

/-- `act`. -/
def act (intent : ActuationIntent) : M Λ ActuationResult := do
  let st ← state intent.episodeId
  let intentDigest ← digest rt intent.modelDump
  withLock (S := kernelSig Λ) (.episode intent.episodeId) (actLocked rt intent intentDigest st)

/-! ## The other operations -/

/-- `register_provider`. -/
def registerProvider (provider : Provider) : M Λ Unit := do
  let w ← getState
  match w.providers provider.name with
  | some _ => raise (.valueError ("provider already registered: " ++ provider.name))
  | none =>
    modify fun w => { w with providers := Function.update w.providers provider.name (some provider) }

/-- `capabilities`. -/
def capabilities (episodeId : String) : M Λ (List Capability) := do
  let st ← state episodeId
  immediate (.capabilities st.environment)

/-- `observe`. -/
def observe (episodeId : String) : M Λ Observation := do
  let st ← state episodeId
  withLock (S := kernelSig Λ) (.episode episodeId) (observeUnlocked rt st)

/-- `read`. No lock is taken. -/
def read (episodeId capabilityRef : String) (payload : Option Payload) : M Λ Payload := do
  let st ← state episodeId
  let capabilities ← immediate (.capabilities st.environment)
  match capabilityNamed capabilities capabilityRef with
  | none => raise (.valueError ("unknown capability: " ++ capabilityRef))
  | some capability =>
    if capability.consequence ≠ .read then raise (.valueError "DO_CAPABILITY_IS_NOT_A_READ")
    else
      bounded "READ_TIMEOUT"
        (.actuate (.read episodeId) st.environment capability (payload.getD []))

/-- The reason of a verification receipt : a provider that judged otherwise is named. -/
def verifyReason (providerPassed passed : Bool) (reason : String) : String :=
  if providerPassed ≠ passed then
    reason ++ ";PROVIDER_VERIFY_DIVERGENCE:provider_reported=" ++
      (if providerPassed then "True" else "False")
  else reason

/-- The body of `verify` under the episode's lock. -/
def verifyLocked (episodeId : String) (expected : Payload) (st : EpisodeState) :
    M Λ VerificationResult := do
  let (providerPassed, observed) ← bounded "VERIFICATION_TIMEOUT" (.verify st.environment expected)
  Prog.lift (ensureState rt (.dict observed))
  let observation ← observeUnlocked rt st
  let (passed, reason) := rt.judge expected observation.state
  let stateDigest ← digest rt (.dict observed)
  let verificationId ← uuid4 rt
  let result : VerificationResult :=
    ⟨verificationId, episodeId, passed, expected, observed, stateDigest⟩
  modify fun w => { w with verifications := w.verifications ++ [result] }
  let receipt ← stamp rt
    { episodeId, operation := .verify, standing := if passed then .alive else .uncertain,
      subjectRef := some st.environment.environmentId, verificationId := some verificationId,
      verified := some passed, postStateDigest := some stateDigest,
      reason := some (verifyReason providerPassed passed reason) }
  let _ ← record rt receipt
  pure result

/-- `verify`. -/
def verify (episodeId : String) (expected : Payload) : M Λ VerificationResult := do
  Prog.lift (ensureInput rt (.dict expected))
  let st ← state episodeId
  withLock (S := kernelSig Λ) (.episode episodeId) (verifyLocked rt episodeId expected st)

/-- The body of `checkpoint` under the episode's lock. -/
def checkpointLocked (st : EpisodeState) : M Λ Payload := do
  let checkpoint ← bounded "CHECKPOINT_TIMEOUT" (.checkpoint st.environment)
  Prog.lift (ensureCheckpoint rt (.dict checkpoint))
  pure checkpoint

/-- `checkpoint`. -/
def checkpoint (episodeId : String) : M Λ Payload := do
  let st ← state episodeId
  withLock (S := kernelSig Λ) (.episode episodeId) (checkpointLocked rt st)

/-- Construct a receipt and record it. -/
def recordNew (receipt : Receipt) : M Λ Receipt := do
  let receipt ← stamp rt receipt
  record rt receipt

/-! ### Restore -/

section Restore

variable (episodeId : String) (saved : Payload) (authorityRef : Option String) (st : EpisodeState)

/-- The receipt fields every `restore` shares once the episode was observed. -/
def restoreReceipt (before after : Observation) (standing : Standing) : Receipt :=
  { episodeId, operation := .restore, standing, subjectRef := some st.environment.environmentId,
    capabilityRef := some (operationRef "restore"), authorityRef,
    preStateDigest := some before.stateDigest, postStateDigest := some after.stateDigest }

/-- The provider call of `restore` with the look that follows it. -/
def restoreAndObserve : M Λ Observation := do
  bounded "RESTORE_TIMEOUT" (.restore (.restore episodeId) st.environment saved)
  observeUnlocked rt st

/-- Authority is admitted : restore, and receipt what happened. -/
def restoreAdmitted (before : Observation) (authority : AuthorityDecision) : M Λ Receipt := do
  match ← attempt (restoreAndObserve rt episodeId saved st) with
  | .error exc =>
    let after ← observeOr rt st before
    let errorDigest ← errorDigest rt exc
    recordNew rt { restoreReceipt episodeId authorityRef st before after .blocked with
      authorityEvidenceRef := authority.evidenceRef, errorDigest, reason := some exc.reason }
  | .ok after =>
    recordNew rt { restoreReceipt episodeId authorityRef st before after .alive with
      authorityEvidenceRef := authority.evidenceRef }

/-- The checkpoint is within its limit : ask for authority over its digest. -/
def restoreAuthorized (before : Observation) : M Λ Receipt := do
  let checkpointDigest ← digest rt (.dict saved)
  match ← attempt (authorityDecision rt st.environment.requiresAuthority
      { episodeId, subjectRef := st.environment.environmentId, operation := .restore,
        capabilityRef := operationRef "restore",
        payload := [("checkpoint_digest", .str checkpointDigest)], authorityRef }) with
  | .error (.boundaryBlocked code) =>
    recordNew rt { restoreReceipt episodeId authorityRef st before before .blocked with
      reason := some code }
  | .error e => raise e
  | .ok authority =>
    if authority.admitted then
      restoreAdmitted rt episodeId saved authorityRef st before authority
    else
      recordNew rt { restoreReceipt episodeId authorityRef st before before .refused with
        authorityEvidenceRef := authority.evidenceRef, reason := some authority.reason }

/-- The body of `restore` under the episode's lock. -/
def restoreLocked : M Λ Receipt := do
  let before ← observeUnlocked rt st
  match ensureCheckpoint rt (.dict saved) with
  | .error (.boundaryBlocked code) =>
    recordNew rt { restoreReceipt episodeId authorityRef st before before .refused with
      reason := some code }
  | .error e => raise e
  | .ok () => restoreAuthorized rt episodeId saved authorityRef st before

end Restore

/-- `restore`. -/
def restore (episodeId : String) (saved : Payload) (authorityRef : Option String) :
    M Λ Receipt := do
  let st ← state episodeId
  withLock (S := kernelSig Λ) (.episode episodeId)
    (restoreLocked rt episodeId saved authorityRef st)

/-! ### Teardown -/

section Teardown

variable (episodeId : String) (authorityRef : Option String) (st : EpisodeState)

/-- The receipt fields every `teardown` shares. -/
def teardownReceipt (before : Observation) (standing : Standing) : Receipt :=
  { episodeId, operation := .teardown, standing, subjectRef := some st.environment.environmentId,
    capabilityRef := some (operationRef "teardown"), authorityRef,
    preStateDigest := some before.stateDigest }

/-- Authority is admitted : tear down, leave the tombstone, drop the episode. -/
def teardownAdmitted (before : Observation) (authority : AuthorityDecision) : M Λ Receipt := do
  match ← attempt (bounded "TEARDOWN_TIMEOUT" (.teardown (.teardown episodeId) st.environment)) with
  | .error exc =>
    let errorDigest ← errorDigest rt exc
    recordNew rt { teardownReceipt episodeId authorityRef st before .blocked with
      authorityEvidenceRef := authority.evidenceRef, errorDigest, reason := some exc.reason }
  | .ok () =>
    let receipt ← recordNew rt { teardownReceipt episodeId authorityRef st before .alive with
      authorityEvidenceRef := authority.evidenceRef }
    let w ← getState
    modify fun w => { w with
      teardownReceipts := Function.update w.teardownReceipts episodeId (some receipt) }
    -- `del` of a key that is gone
    match w.episodes episodeId with
    | none => raise (.keyError episodeId)
    | some _ =>
      modify fun w => { w with episodes := Function.update w.episodes episodeId none }
      pure receipt

/-- The body of `teardown` under the episode's lock. -/
def teardownLocked : M Λ Receipt := do
  let before ← observeUnlocked rt st
  match ← attempt (authorityDecision rt st.environment.requiresAuthority
      { episodeId, subjectRef := st.environment.environmentId, operation := .teardown,
        capabilityRef := operationRef "teardown", payload := [], authorityRef }) with
  | .error (.boundaryBlocked code) =>
    recordNew rt { teardownReceipt episodeId authorityRef st before .blocked with
      postStateDigest := some before.stateDigest, reason := some code }
  | .error e => raise e
  | .ok authority =>
    if authority.admitted then teardownAdmitted rt episodeId authorityRef st before authority
    else
      recordNew rt { teardownReceipt episodeId authorityRef st before .refused with
        authorityEvidenceRef := authority.evidenceRef,
        postStateDigest := some before.stateDigest, reason := some authority.reason }

end Teardown

/-- `teardown`. A tombstone answers at once. -/
def teardown (episodeId : String) (authorityRef : Option String) : M Λ Receipt := do
  let w ← getState
  match w.teardownReceipts episodeId with
  | some prior => pure prior
  | none =>
    let st ← state episodeId
    withLock (S := kernelSig Λ) (.episode episodeId) (teardownLocked rt episodeId authorityRef st)

/-! ## Operations as one type -/

/-- A call of a kernel operation. -/
inductive Op
  | registerProvider (provider : Provider)
  | materialize (intent : MaterializationIntent)
  | capabilities (episodeId : String)
  | observe (episodeId : String)
  | read (episodeId capabilityRef : String) (payload : Option Payload)
  | act (intent : ActuationIntent)
  | verify (episodeId : String) (expected : Payload)
  | checkpoint (episodeId : String)
  | restore (episodeId : String) (saved : Payload) (authorityRef : Option String)
  | teardown (episodeId : String) (authorityRef : Option String)
  deriving DecidableEq, Repr

/-- What an operation returns. -/
inductive Outcome
  | registered
  | materialized (result : MaterializationResult)
  | capabilities (capabilities : List Capability)
  | observed (observation : Observation)
  | read (value : Payload)
  | acted (result : ActuationResult)
  | verified (result : VerificationResult)
  | checkpointed (checkpoint : Payload)
  | restored (receipt : Receipt)
  | toreDown (receipt : Receipt)
  deriving DecidableEq, Repr

/-- The program of an operation. -/
def Op.program : Op → M Λ Outcome
  | .registerProvider provider => (fun _ => .registered) <$> GymAct.registerProvider provider
  | .materialize intent => .materialized <$> GymAct.materialize rt intent
  | .capabilities episodeId => .capabilities <$> GymAct.capabilities episodeId
  | .observe episodeId => .observed <$> GymAct.observe rt episodeId
  | .read episodeId capabilityRef payload =>
    .read <$> GymAct.read episodeId capabilityRef payload
  | .act intent => .acted <$> GymAct.act rt intent
  | .verify episodeId expected => .verified <$> GymAct.verify rt episodeId expected
  | .checkpoint episodeId => .checkpointed <$> GymAct.checkpoint rt episodeId
  | .restore episodeId saved authorityRef =>
    .restored <$> GymAct.restore rt episodeId saved authorityRef
  | .teardown episodeId authorityRef =>
    .toreDown <$> GymAct.teardown rt episodeId authorityRef

end GymAct
