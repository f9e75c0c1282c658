import GymAct.Kernel

/-!
# What the kernel's operations can do

Rules for the parts of an operation, to be used with a single run (`post`) and with
interleaved ones (`wp`). Up to its first consequence every operation only asks : the
authority resolver, the capabilities, the state (`Gate`). What `act` does after its
gates is one of three : raise, exit with a receipt, or go on with an admitted capability
(`leads_actFresh`). What it does after the provider answered is raise nothing and exit
with a receipt that says so (`leads_actReceipted`).
-/

namespace GymAct

open Coop Coop.Prog

variable {Λ : Type} (rt : Runtime Λ)

/-! ## The interface -/

section Interface

variable {A : (c : Call) → c.Reply → Prop} {w : World Λ} {log : Log (kernelSig Λ)}

theorem kernel_post_bounded {code : String} {c : Call}
    {Q : Except Exc c.Value → World Λ → Log (kernelSig Λ) → Prop} :
    post A Q (bounded code c) w log ↔
      ∀ r, A c r → Q (settle (.boundaryBlocked code) r) w (log ++ [⟨c, r⟩]) := Iff.rfl

theorem kernel_post_immediate {c : Call}
    {Q : Except Exc c.Value → World Λ → Log (kernelSig Λ) → Prop} :
    post A Q (immediate c) w log ↔
      ∀ r, A c r → Q (settle (.provider ⟨"TimeoutError", ""⟩) r) w (log ++ [⟨c, r⟩]) := Iff.rfl

theorem post_stamp {Q : Except Exc Receipt → World Λ → Log (kernelSig Λ) → Prop}
    (receipt : Receipt) :
    post A Q (stamp rt receipt) w log ↔
      Q (.ok (receipt.stamped (rt.uuid4 w.supply) (rt.now w.supply))) w.drawn log := Iff.rfl

theorem post_record {Q : Except Exc Receipt → World Λ → Log (kernelSig Λ) → Prop}
    (receipt : Receipt) :
    post A Q (record rt receipt) w log ↔
      (∀ e, rt.append w.ledger receipt = .error e → Q (.error (.ledger e)) w log) ∧
      ∀ L, rt.append w.ledger receipt = .ok L → Q (.ok receipt) (w.recorded L receipt) log := by
  cases ha : rt.append w.ledger receipt with
  | error e => simp [record, ha, Except.mapError]
  | ok L => simp [record, ha, Except.mapError]

end Interface

/-! ## Gates -/

/-- Calls that have no consequence. -/
def Gate : Call → Prop
  | .authorize _ | .capabilities _ | .observe _ => True
  | _ => False

/-- Codes of the boundary around the state of an environment. -/
def stateCodes : List String :=
  ["OBSERVATION_TIMEOUT", "STATE_LIMIT_EXCEEDED", "STATE_NOT_RFC8785_CANONICAL"]

/-- The exceptions of a look at the state. -/
def StateExc : Exc → Prop
  | .boundaryBlocked code => code ∈ stateCodes
  | .provider _ | .canonicalization _ => True
  | _ => False

section Gated

variable {A : (c : Call) → c.Reply → Prop} {G : Call → Prop}

theorem gated_bounded {code : String} {c : Call} {Ψ : Except Exc c.Value → Prop} (hG : G c)
    (hΨ : ∀ r, A c r → Ψ (settle (.boundaryBlocked code) r)) :
    Gated A G Ψ (bounded code c : M Λ c.Value) :=
  .await hG fun r hr => .tail ⟨_, hΨ r hr, rfl⟩

theorem gated_immediate {c : Call} {Ψ : Except Exc c.Value → Prop} (hG : G c)
    (hΨ : ∀ r, A c r → Ψ (settle (.provider ⟨"TimeoutError", ""⟩) r)) :
    Gated A G Ψ (immediate c : M Λ c.Value) :=
  .ask hG fun r hr => .tail ⟨_, hΨ r hr, rfl⟩

theorem stateExc_ensureState {v : Value} {e : Exc} (h : ensureState rt v = .error e) :
    StateExc e := by
  unfold ensureState ensureWithin at h
  split at h
  · cases hp : rt.promotes
    · cases (by simpa [hp] using h : Exc.canonicalization _ = e)
      trivial
    · cases (by simpa [hp] using h : Exc.boundaryBlocked _ = e)
      simp [StateExc, stateCodes]
  · split at h
    · cases h; simp [StateExc, stateCodes]
    · cases h

theorem stateExc_settle {α : Type} {code : String} (hcode : code ∈ stateCodes)
    {r : Except ProviderError α} {e : Exc} (h : settle (.boundaryBlocked code) r = .error e) :
    StateExc e := by
  unfold settle at h
  split at h
  · cases h
  · cases h; exact hcode
  · cases h; trivial

/-- A digest raises nothing but a failed canonicalization. -/
theorem gated_digest (v : Value) :
    Gated A G (fun r => ∀ e, r = .error e → ∃ x, e = Exc.canonicalization x)
      (digest rt v : M Λ String) := by
  refine .tail ⟨_, fun e he => ?_, rfl⟩
  cases h : rt.canon.digest v with
  | ok d => simp [h, Except.mapError] at he
  | error x => exact ⟨x, by simpa [h, Except.mapError, eq_comm] using he⟩

/-- A look at the state of an episode : what it returns is within the limits. -/
theorem gated_observeUnlocked (hG : ∀ env, G (.observe env)) (st : EpisodeState) :
    Gated A G (fun r => (∀ e, r = .error e → StateExc e) ∧
        ∀ o, r = .ok o → ensureState rt (.dict o.state) = .ok ())
      (observeUnlocked rt st : M Λ Observation) := by
  have herror : ∀ {e : Exc}, StateExc e → (∀ e', (.error e : Except Exc Observation) = .error e' →
      StateExc e') ∧ ∀ o, (.error e : Except Exc Observation) = .ok o →
        ensureState rt (.dict o.state) = .ok () :=
    fun he => ⟨fun e' h => by cases h; exact he, by simp⟩
  refine Gated.bind (Ψ := fun r => ∀ e, r = .error e → StateExc e)
    (gated_bounded (hG _) fun r _ e he => stateExc_settle (by simp [stateCodes]) he)
    (fun value _ => ?_) (fun e he => ⟨_, herror (he e rfl), rfl⟩)
  refine Gated.bind (Ψ := fun r => r = ensureState rt (.dict value)) (Gated.ret rfl)
    (fun _ hin => ?_) (fun e he => ⟨_, herror (stateExc_ensureState rt he.symm), rfl⟩)
  refine (gated_digest rt _).bind (fun d _ => Gated.ret ⟨by simp, fun o ho => ?_⟩) fun e he => ?_
  · cases ho
    exact hin.symm
  · obtain ⟨x, rfl⟩ := he e rfl
    exact ⟨_, herror (e := .canonicalization x) trivial, rfl⟩

/-- A second look never raises. -/
theorem gated_observeOr (hG : ∀ env, G (.observe env)) (st : EpisodeState)
    (before : Observation) :
    Gated A G (fun r => ∃ o, r = .ok o) (observeOr rt st before : M Λ Observation) := by
  refine (gated_observeUnlocked rt hG st).attempt_bind fun r _ => ?_
  cases r with
  | ok after => exact Gated.ret ⟨after, rfl⟩
  | error e => exact Gated.ret ⟨before, rfl⟩

/-- An authority decision : a typed boundary failure is a timeout of the resolver, and a
resolver that decides was asked with a canonical request. -/
theorem gated_authorityDecision (hG : ∀ req, G (.authorize req)) (required : Bool)
    (request : AuthorityRequest) :
    Gated A G (fun r =>
        (∀ code, r = .error (Exc.boundaryBlocked code) → code = "AUTHORITY_TIMEOUT") ∧
          ∀ d, r = .ok d → required = true → CanonicalIn rt.canon request.modelDump)
      (authorityDecision rt required request : M Λ AuthorityDecision) := by
  unfold authorityDecision
  split
  · split
    · exact Gated.ret ⟨by simp, by simp⟩
    case h_2 b hb =>
      refine gated_bounded (hG _) fun r _ => ⟨fun code h => ?_, fun _ _ _ => ⟨b, hb⟩⟩
      unfold settle at h
      split at h <;> cases h
      rfl
  case isFalse h => exact Gated.ret ⟨by simp, fun _ _ hr => absurd hr h⟩

/-- The admission of an environment : what passes it is within the limits. -/
theorem gated_environmentAdmission (hcap : ∀ env, G (.capabilities env))
    (hobs : ∀ env, G (.observe env)) (env : Environment) :
    Gated A G (fun r => ∀ v, r = .ok v → ensureState rt (.dict v) = .ok ())
      (environmentAdmission rt env : M Λ Payload) := by
  refine Gated.bind (Ψ := fun _ => True) (gated_immediate (hcap _) fun _ _ => trivial)
    (fun cs _ => ?_) fun e _ => ⟨_, by simp, rfl⟩
  split
  · refine Gated.bind (Ψ := fun _ => True) (gated_bounded (hobs _) fun _ _ => trivial)
      (fun v _ => ?_) fun e _ => ⟨_, by simp, rfl⟩
    refine Gated.bind (Ψ := fun x => ensureState rt (.dict v) = x) (Gated.ret rfl)
      (fun _ hx => Gated.ret fun v' hv => ?_) fun e _ => ⟨_, by simp, rfl⟩
    cases hv
    exact hx
  · exact Gated.ret (by simp)

end Gated

/-- What is within a limit has a digest. -/
theorem digest_of_ensureState {rt : Runtime Λ} {v : Value} (h : ensureState rt v = .ok ()) :
    ∃ d, rt.canon.digest v = .ok d := by
  unfold ensureState ensureWithin at h
  cases hb : rt.canon.canonicalBytes v with
  | error e => simp [hb] at h
  | ok b => exact ⟨rt.canon.blake3 b, by simp [Canon.digest, hb, Except.map]⟩

/-- The digest of an exception always exists. -/
theorem errorDigest_eq {rt : Runtime Λ} (hC : rt.canon.Total) (e : Exc) :
    ∃ d, (errorDigest rt e : M Λ (Option String)) = pure d := by
  have h : ∀ x : PyError, ∃ d, (some <$> digest rt (.dict [("type", .str x.type),
      ("message", .str x.message)]) : M Λ (Option String)) = pure d := by
    intro x
    obtain ⟨d, hd⟩ := hC.digest (v := .dict [("type", .str x.type), ("message", .str x.message)])
      (by simp)
    exact ⟨some d, by simp only [digest, hd]; rfl⟩
  cases e with
  | boundaryBlocked code => exact ⟨none, rfl⟩
  | _ => exact h _

/-! ## Receipts of `act` -/

/-- Reasons the consequence boundary of `act` writes, the provider's own exceptions apart. -/
def providerCodes : List String := "ACTUATION_TIMEOUT" :: stateCodes

/-- A reason for a failure at or behind the provider. -/
def providerReason (reason : String) : Bool :=
  providerCodes.contains reason || "PROVIDER_ERROR:".toList.isPrefixOf reason.toList

/-- A receipt that says the provider was asked to act. -/
def Receipt.attempted (r : Receipt) : Bool :=
  r.operation == .act &&
    (r.standing == .alive || r.standing == .blocked && r.reason.any providerReason)

/-- The exceptions behind an actuation. -/
def ActExc : Exc → Prop
  | .boundaryBlocked code => code ∈ providerCodes
  | .provider _ | .canonicalization _ => True
  | _ => False

theorem StateExc.actExc {e : Exc} (h : StateExc e) : ActExc e := by
  cases e <;> simp_all [StateExc, ActExc, providerCodes]

theorem providerReason_reason {e : Exc} (h : ActExc e) : providerReason e.reason = true := by
  have hp : ∀ t : String, providerReason ("PROVIDER_ERROR:" ++ t) = true := by
    intro t
    have : "PROVIDER_ERROR:".toList.isPrefixOf ("PROVIDER_ERROR:" ++ t).toList = true := by
      rw [String.toList_append, List.isPrefixOf_iff_prefix]
      exact List.prefix_append _ _
    simp only [providerReason, this, Bool.or_true]
  cases e with
  | boundaryBlocked code =>
    have h : code ∈ providerCodes := h
    simp [providerReason, Exc.reason, h]
  | provider e => exact hp _
  | canonicalization e => exact hp _
  | keyError m => exact absurd h (by simp [ActExc])
  | valueError m => exact absurd h (by simp [ActExc])
  | ledger e => exact absurd h (by simp [ActExc])

theorem actuationExit_eq {rt : Runtime Λ} {intent : ActuationIntent} {intentDigest : String}
    {receipt : Receipt} {result : Receipt → ActuationResult} {cache : Bool}
    (hres : ∀ r, (result r).receipt = r) :
    actuationExit rt intent intentDigest receipt result cache =
      stamp rt receipt >>= fun r => record rt r >>= fun _ =>
        (Prog.modify fun w => if cache then
          w.cacheActuation (actKey intent) ⟨intentDigest, result r⟩ else w) >>=
        fun _ => pure (result r) := by
  refine congrArg (stamp rt receipt >>= ·) (funext fun r => ?_)
  simp only [actuationResult, hres]

theorem materializationExit_eq {rt : Runtime Λ} {intent : MaterializationIntent}
    {intentDigest : String} {receipt : Receipt} {result : Receipt → MaterializationResult}
    {cache : Bool} (hres : ∀ r, (result r).receipt = r) :
    materializationExit rt intent intentDigest receipt result cache =
      stamp rt receipt >>= fun r => record rt r >>= fun _ =>
        (Prog.modify fun w => if cache then
          w.cacheMaterialization intent.idempotencyKey ⟨intentDigest, result r⟩ else w) >>=
        fun _ => pure (result r) := by
  refine congrArg (stamp rt receipt >>= ·) (funext fun r => ?_)
  simp only [materializationResult, hres]

/-- The fields by which a receipt names the selection it was made under. -/
def Receipt.cutFields (receipt : Receipt) : List (Option String) :=
  [receipt.possibilityGraphDigest, receipt.possibilityExplorationDigest, receipt.possibilityPathId,
    receipt.possibilityMorphismId, receipt.selectionDigest]

/-- A receipt that names no selection. -/
def Receipt.Uncut (receipt : Receipt) : Prop := receipt.cutFields = List.replicate 5 none

/-- A receipt the kernel constructs for an operation : it names no parents and no
selection. -/
structure KernelReceipt (operation : Operation) (receipt : Receipt) : Prop where
  operation : receipt.operation = operation
  parents : receipt.parentReceiptIds = []
  uncut : receipt.Uncut

/-- How `act` leaves with a receipt : `attempt` tells whether the provider was asked. -/
structure ActExit (intent : ActuationIntent) (attempt : Bool) (receipt : Receipt)
    (result : Receipt → ActuationResult) : Prop where
  episode : receipt.episodeId = intent.episodeId
  operation : receipt.operation = .act
  key : receipt.idempotencyKey = some intent.idempotencyKey
  capability : receipt.capabilityRef = some intent.capability
  effects : receipt.intendedEffects = []
  parents : receipt.parentReceiptIds = []
  uncut : receipt.Uncut
  attempted : receipt.attempted = attempt
  receipt_eq : ∀ r, (result r).receipt = r

theorem ActExit.kernelReceipt {intent : ActuationIntent} {attempt : Bool} {receipt : Receipt}
    {result : Receipt → ActuationResult} (h : ActExit intent attempt receipt result) :
    KernelReceipt .act receipt :=
  ⟨h.operation, h.parents, h.uncut⟩

section Act

variable (intent : ActuationIntent) (intentDigest : String) (st : EpisodeState)
  {A : (c : Call) → c.Reply → Prop}

/-- What `act` asks the authority resolver. -/
def actRequest (intent : ActuationIntent) (st : EpisodeState) : AuthorityRequest :=
  { episodeId := intent.episodeId, subjectRef := st.environment.environmentId, operation := .act,
    capabilityRef := intent.capability, payload := intent.payload,
    authorityRef := intent.authorityRef }

/-- The capability `act` goes on with : admitted by every gate. -/
structure ActAdmits (A : (c : Call) → c.Reply → Prop) (capability : Capability)
    (authority : AuthorityDecision) : Prop where
  declared : ∃ capabilities, A (.capabilities st.environment) (.ok capabilities) ∧
    capabilityNamed capabilities intent.capability = some capability
  consequence : capability.consequence = .do
  permitted : rt.permits intent.principal capability.iri = true
  admitted : authority.admitted = true
  within : ensureInput rt (.dict intent.payload) = .ok ()
  requested : st.environment.requiresAuthority = true →
    CanonicalIn rt.canon (actRequest intent st).modelDump
  observed : ∃ value, ensureState rt (.dict value) = .ok ()

theorem capabilityNamed_iri {capabilities : List Capability} {ref : String} {c : Capability}
    (h : capabilityNamed capabilities ref = some c) : c.iri = ref := by
  simpa [capabilityNamed] using List.find?_some h

theorem mem_of_capabilityNamed {capabilities : List Capability} {ref : String} {c : Capability}
    (h : capabilityNamed capabilities ref = some c) : c ∈ capabilities :=
  List.mem_reverse.mp (List.mem_of_find?_eq_some h)

/-- What is left of `act` once its gates are passed. -/
inductive ActTail (A : (c : Call) → c.Reply → Prop) : M Λ ActuationResult → Prop
  | raise (e : Exc) : ActTail A (raise e)
  | exit {receipt : Receipt} {result : Receipt → ActuationResult}
      (h : ActExit intent false receipt result) (hcosts : receipt.costs = []) :
      ActTail A (actuationExit rt intent intentDigest receipt result)
  | proceed (before : Observation) {capability : Capability} {authority : AuthorityDecision}
      (h : ActAdmits rt intent st A capability authority) :
      ActTail A (actAdmitted rt intent intentDigest st before capability authority)

/-- The gates of `act` for a new key. -/
theorem leads_actFresh :
    Leads A Gate (ActTail rt intent intentDigest st A) (actFresh rt intent intentDigest st) := by
  refine (gated_observeUnlocked rt (fun _ => trivial) st).bind (fun before hbefore => ?_)
    fun e _ => .raise e
  split
  case h_1 code hin =>
    exact .tail (.exit ⟨rfl, rfl, rfl, rfl, rfl, rfl, rfl, rfl, fun _ => rfl⟩ rfl)
  case h_2 e _ _ => exact .tail (.raise e)
  case h_3 hin =>
    refine Gated.bind (Ψ := fun r => ∀ cs, r = .ok cs → A (.capabilities st.environment) (.ok cs))
      (gated_immediate trivial fun r hr cs h => ?_) (fun capabilities hcaps => ?_)
      fun e _ => .raise e
    · unfold settle at h
      split at h <;> cases h
      exact hr
    · split
      · exact .tail (.exit ⟨rfl, rfl, rfl, rfl, rfl, rfl, rfl, rfl, fun _ => rfl⟩ rfl)
      case h_2 capability hcap =>
        have hiri := capabilityNamed_iri hcap
        split
        · exact .tail (.exit ⟨rfl, rfl, rfl, by simp [hiri], rfl, rfl, rfl, rfl, fun _ => rfl⟩ rfl)
        · split
          · exact .tail (.exit ⟨rfl, rfl, rfl, by simp [hiri], rfl, rfl, rfl, rfl, fun _ => rfl⟩ rfl)
          case isFalse hdo hperm =>
            refine (gated_authorityDecision rt (fun _ => trivial) _ _).attempt_bind fun r hr => ?_
            cases r with
            | error e =>
              cases e with
              | boundaryBlocked code =>
                obtain rfl := hr.1 code rfl
                exact .tail (.exit ⟨rfl, rfl, rfl, by simp [hiri], rfl, rfl, rfl, rfl, fun _ => rfl⟩ rfl)
              | _ => exact .tail (.raise _)
            | ok authority =>
              dsimp only
              split
              case isTrue hadm =>
                exact .tail (.proceed before ⟨⟨capabilities, hcaps capabilities rfl, hcap⟩,
                  by simpa using hdo, by simpa using hperm, hadm, hin,
                  by simpa only [actRequest, hiri] using hr.2 authority rfl,
                  before.state, hbefore.2 before rfl⟩)
              case isFalse =>
                exact .tail (.exit ⟨rfl, rfl, rfl, by simp [hiri], rfl, rfl, rfl, rfl, fun _ => rfl⟩ rfl)

/-- `act` with a key used for another intent : a look, and a receipt that is not cached. -/
inductive ConflictTail : M Λ ActuationResult → Prop
  | raise (e : Exc) : ConflictTail (raise e)
  | exit {receipt : Receipt} {result : Receipt → ActuationResult}
      (h : ActExit intent false receipt result) (hcosts : receipt.costs = [])
      (hstanding : ∀ r, (result r).standing = r.standing) (hrefused : receipt.standing = .refused) :
      ConflictTail (actuationExit rt intent intentDigest receipt result false)

theorem leads_actConflict :
    Leads A Gate (ConflictTail rt intent intentDigest) (actConflict rt intent intentDigest st) :=
  (gated_observeUnlocked rt (fun _ => trivial) st).bind
    (fun _ _ => .tail (.exit ⟨rfl, rfl, rfl, rfl, rfl, rfl, rfl, rfl, fun _ => rfl⟩ rfl (fun _ => rfl) rfl))
    fun e _ => .raise e

/-- What is left of `act` once the provider answered : an exit with a receipt that says
so. -/
inductive ReceiptedTail (capability : Capability) : M Λ ActuationResult → Prop
  | exit {receipt : Receipt} {result : Receipt → ActuationResult}
      (h : ActExit intent true receipt result)
      (hcosts : receipt.costs = [] ∨
        receipt.costs = capability.costs.map fun c => { c with kind := .observedActual }) :
      ReceiptedTail capability (actuationExit rt intent intentDigest receipt result)

/-- After its gates `act` asks the provider to act, and whatever the answer is, it exits
with a receipt. -/
theorem leads_actReceipted (hC : rt.canon.Total) (before : Observation) {capability : Capability}
    (authority : AuthorityDecision) (hiri : capability.iri = intent.capability) :
    ∃ k, actAdmitted rt intent intentDigest st before capability authority =
        .await (.actuate (.act intent.episodeId intent.idempotencyKey) st.environment capability
          intent.payload) k ∧
      ∀ r, Leads A Gate (ReceiptedTail rt intent intentDigest capability) (k r) := by
  refine ⟨fun r => attempt ((Prog.lift (settle (.boundaryBlocked "ACTUATION_TIMEOUT") r) >>=
      fun effect => Prog.lift (ensureState rt (.dict effect)) >>= fun _ =>
        observeUnlocked rt st >>= fun after => pure (effect, after)) :
      M Λ (Payload × Observation)) >>= _, rfl, fun r => ?_⟩
  -- every exception between the provider's answer and the second look is the boundary's
  have hbody : Gated A Gate (fun x => ∀ e, x = .error e → ActExc e)
      ((Prog.lift (settle (.boundaryBlocked "ACTUATION_TIMEOUT") r) >>= fun effect =>
        Prog.lift (ensureState rt (.dict effect)) >>= fun _ => observeUnlocked rt st >>= fun after =>
          pure (effect, after)) : M Λ (Payload × Observation)) := by
    refine Gated.bind (Ψ := fun x => ∀ e, x = .error e → ActExc e)
      (Gated.ret fun e he => ?_) (fun effect _ => ?_)
      fun e he => ⟨_, fun e' h => by cases h; exact he e rfl, rfl⟩
    · unfold settle at he
      split at he <;> cases he
      · simp [ActExc, providerCodes]
      · trivial
    · refine Gated.bind (Ψ := fun x => ∀ e, x = .error e → ActExc e)
        (Gated.ret fun e he => (stateExc_ensureState rt he).actExc) (fun _ _ => ?_)
        fun e he => ⟨_, fun e' h => by cases h; exact he e rfl, rfl⟩
      exact (gated_observeUnlocked rt (fun _ => trivial) st).bind
        (fun after _ => Gated.ret (by simp))
        fun e he => ⟨_, fun e' h => by cases h; exact (he.1 e rfl).actExc, rfl⟩
  refine hbody.attempt_bind fun x hx => ?_
  cases x with
  | error exc =>
    have hexc := hx exc rfl
    refine (gated_observeOr rt (fun _ => trivial) st before).bind (fun after _ => ?_)
      fun e he => by obtain ⟨o, ho⟩ := he; cases ho
    obtain ⟨d, hd⟩ := errorDigest_eq hC exc
    rw [hd, prog_pure_bind]
    refine .tail (.exit ⟨rfl, rfl, rfl, by simp [hiri], rfl, rfl, rfl, ?_, fun _ => rfl⟩ (Or.inl rfl))
    simp [Receipt.attempted, providerReason_reason hexc]
  | ok p =>
    exact .tail (.exit ⟨rfl, rfl, rfl, by simp [hiri], rfl, rfl, rfl, rfl, fun _ => rfl⟩ (Or.inr rfl))

end Act

/-- The tables once an episode has a tombstone. -/
def World.buried (w : World Λ) (episodeId : String) (receipt : Receipt) : World Λ :=
  { w with teardownReceipts := Function.update w.teardownReceipts episodeId (some receipt) }

/-- The tables once an episode is dropped. -/
def World.dropped (w : World Λ) (episodeId : String) : World Λ :=
  { w with episodes := Function.update w.episodes episodeId none }

/-- What is left of `teardown` once the environment is torn down. -/
def teardownRest (rt : Runtime Λ) (episodeId : String) (receipt : Receipt) : M Λ Receipt :=
  recordNew rt receipt >>= fun receipt => getState >>= fun w =>
    Prog.modify (fun w => w.buried episodeId receipt) >>= fun _ =>
      match w.episodes episodeId with
      | none => raise (.keyError episodeId)
      | some _ => Prog.modify (fun w => w.dropped episodeId) >>= fun _ => pure receipt

/-- An admitted `teardown` calls the environment, and records what it answered. -/
theorem teardownAdmitted_eq (rt : Runtime Λ) (episodeId : String) (authorityRef : Option String)
    (st : EpisodeState) (before : Observation) (authority : AuthorityDecision) :
    ∃ k, teardownAdmitted rt episodeId authorityRef st before authority =
        .await (.teardown (.teardown episodeId) st.environment) k ∧
      (k (.ok ()) = teardownRest rt episodeId
        { teardownReceipt episodeId authorityRef st before .alive with
          authorityEvidenceRef := authority.evidenceRef }) ∧
      ∀ failure, ∃ exc, k (.error failure) = errorDigest rt exc >>= fun errorDigest =>
        recordNew rt { teardownReceipt episodeId authorityRef st before .blocked with
          authorityEvidenceRef := authority.evidenceRef, errorDigest, reason := some exc.reason } := by
  refine ⟨_, rfl, rfl, fun failure => ?_⟩
  cases failure with
  | timeout => exact ⟨.boundaryBlocked "TEARDOWN_TIMEOUT", rfl⟩
  | raised e => exact ⟨.provider e, rfl⟩

/-- What is left of `teardown` once its gates are passed. -/
inductive TeardownTail (episodeId : String) (authorityRef : Option String) (st : EpisodeState) :
    M Λ Receipt → Prop
  | raise (e : Exc) : TeardownTail episodeId authorityRef st (raise e)
  | refuse {receipt : Receipt} (hep : receipt.episodeId = episodeId)
      (hreceipt : KernelReceipt .teardown receipt) (hst : receipt.standing ≠ .alive) :
      TeardownTail episodeId authorityRef st (recordNew rt receipt)
  | proceed (before : Observation) (authority : AuthorityDecision) :
      TeardownTail episodeId authorityRef st
        (teardownAdmitted rt episodeId authorityRef st before authority)

/-- The gates of `teardown`. -/
theorem leads_teardownLocked {A : (c : Call) → c.Reply → Prop} (episodeId : String)
    (authorityRef : Option String) (st : EpisodeState) :
    Leads A Gate (TeardownTail rt episodeId authorityRef st)
      (teardownLocked rt episodeId authorityRef st) := by
  refine (gated_observeUnlocked rt (fun _ => trivial) st).bind (fun before _ => ?_)
    fun e _ => .raise e
  refine (gated_authorityDecision rt (fun _ => trivial) _ _).attempt_bind fun x _ => ?_
  split
  · exact .tail (.refuse rfl ⟨rfl, rfl, rfl⟩ (by simp [teardownReceipt]))
  · exact .tail (.raise _)
  split
  · exact .tail (.proceed before _)
  · exact .tail (.refuse rfl ⟨rfl, rfl, rfl⟩ (by simp [teardownReceipt]))

/-! ## Laws of operations

A property of programs that is closed under sequencing, holds of the calls of `quiet`
and of recording the receipts of `plain`, holds of every operation that does nothing
else. It is said once for the properties of single runs and of interleaved ones. -/

/-- Recording a new receipt, as the laws see it. -/
theorem recordNew_eq (receipt : Receipt) :
    recordNew rt receipt = stamp rt receipt >>= fun r => record rt r >>= fun _ => pure r := by
  refine congrArg (stamp rt receipt >>= ·) (funext fun r => ?_)
  simp only [record, prog_bind_assoc, prog_pure_bind]

/-- A property of programs, closed under what a body under a lock is made of. -/
structure KernelLaw (A : (c : Call) → c.Reply → Prop) (quiet : Call → Prop)
    (plain : Receipt → Prop) (K : (α : Type) → M Λ α → Prop) : Prop where
  ret : ∀ {α : Type} (r : Except Exc α), K α (.ret r)
  bindE : ∀ {α β : Type} {p : M Λ α} {f : Except Exc α → M Λ β}, K α p → (∀ r, K β (f r)) →
    K β (p.bindE f)
  getState : K (World Λ) getState
  leads : ∀ {α : Type} {Tail : M Λ α → Prop} {p : M Λ α}, Leads A quiet Tail p →
    (∀ q, Tail q → K α q) → K α p
  idle : K Unit (Prog.modify fun w => w)
  drawn : K Unit (Prog.modify World.drawn)
  verified : ∀ result, K Unit
    (Prog.modify fun w => { w with verifications := w.verifications ++ [result] })
  recorded : ∀ {β : Type} {receipt : Receipt} {f : Receipt → M Λ β}, plain receipt →
    (∀ r, K β (f r)) → K β (stamp rt receipt >>= fun r => record rt r >>= fun _ => f r)

/-- A law for what stands outside a lock, and one for what stands under it. -/
structure LockedLaw (A : (c : Call) → c.Reply → Prop) (quiet quiet' : Call → Prop)
    (plain : Receipt → Prop) (K : (α : Type) → M Λ α → Prop) (l : LockId)
    (K' : (α : Type) → M Λ α → Prop) : Prop where
  outer : KernelLaw rt A quiet plain K
  inner : KernelLaw rt A quiet' plain K'
  withLock : ∀ {α : Type} {p : M Λ α}, K' α p → K α (Prog.withLock (S := kernelSig Λ) l p)

section Law

variable {rt} {A : (c : Call) → c.Reply → Prop} {quiet quiet' : Call → Prop} {plain : Receipt → Prop}
  {K K' : (α : Type) → M Λ α → Prop}

namespace KernelLaw

variable (hK : KernelLaw rt A quiet plain K)

include hK

theorem pure {α : Type} (a : α) : K α (Pure.pure a) := hK.ret _

theorem raise {α : Type} (e : Exc) : K α (Prog.raise (S := kernelSig Λ) e) := hK.ret _

theorem lift {α : Type} (r : Except Exc α) : K α (Prog.lift (S := kernelSig Λ) r) := hK.ret _

theorem bind {α β : Type} {p : M Λ α} {f : α → M Λ β} (hp : K α p) (hf : ∀ a, K β (f a)) :
    K β (p >>= f) :=
  hK.bindE hp fun r => by
    cases r with
    | ok a => exact hf a
    | error e => exact hK.ret _

theorem attempt {α : Type} {p : M Λ α} (hp : K α p) :
    K (Except Exc α) (Prog.attempt (S := kernelSig Λ) p) :=
  hK.bindE hp fun r => hK.ret (.ok r)

theorem map {α β : Type} {p : M Λ α} (hp : K α p) (f : α → β) : K β (f <$> p) :=
  hK.bind hp fun a => hK.pure (f a)

theorem gated {α : Type} {G : Call → Prop} {Ψ : Except Exc α → Prop} {p : M Λ α}
    (hp : Gated A G Ψ p) (hG : ∀ c, G c → quiet c) : K α p :=
  hK.leads (hp.weaken hG) fun _ ⟨r, _, hq⟩ => by
    subst hq
    exact hK.ret r

theorem bounded {code : String} {c : Call} (hc : quiet c) : K c.Value (bounded code c) :=
  hK.gated (G := quiet) (gated_bounded (Ψ := fun _ => True) hc fun _ _ => trivial) fun _ h => h

theorem immediate {c : Call} (hc : quiet c) : K c.Value (immediate c) :=
  hK.gated (G := quiet) (gated_immediate (Ψ := fun _ => True) hc fun _ _ => trivial) fun _ h => h

theorem uuid4 : K String (uuid4 rt) :=
  hK.bind hK.getState fun _ => hK.bind hK.drawn fun _ => hK.pure _

theorem recordNew {receipt : Receipt} (hp : plain receipt) :
    K Receipt (recordNew rt receipt) := by
  rw [recordNew_eq]
  exact hK.recorded hp fun r => hK.pure r

theorem state (episodeId : String) : K EpisodeState (state episodeId) := by
  refine hK.bind hK.getState fun w => ?_
  split
  · exact hK.pure _
  · exact hK.raise _

theorem digest (v : Value) : K String (digest rt v) := hK.lift _

theorem errorDigest (e : Exc) : K (Option String) (errorDigest rt e) := by
  unfold GymAct.errorDigest
  split
  · exact hK.pure _
  · exact hK.map (hK.lift _) _

theorem observeUnlocked (hg : ∀ c, Gate c → quiet c) (st : EpisodeState) :
    K Observation (observeUnlocked rt st) :=
  hK.gated (gated_observeUnlocked rt (fun _ => trivial) st) hg

theorem observeOr (hg : ∀ c, Gate c → quiet c) (st : EpisodeState) (before : Observation) :
    K Observation (observeOr rt st before) :=
  hK.gated (gated_observeOr rt (fun _ => trivial) st before) hg

theorem authorityDecision (hg : ∀ c, Gate c → quiet c) (required : Bool)
    (request : AuthorityRequest) :
    K AuthorityDecision (authorityDecision rt required request) :=
  hK.gated (gated_authorityDecision rt (fun _ => trivial) required request) hg

/-! ### Bodies under a lock -/

theorem verifyLocked (hg : ∀ c, Gate c → quiet c) (hv : ∀ env x, quiet (.verify env x))
    (hplain : ∀ r, KernelReceipt .verify r → plain r) (episodeId : String) (expected : Payload)
    (st : EpisodeState) : K VerificationResult (verifyLocked rt episodeId expected st) := by
  refine hK.bind (hK.bounded (hv _ _)) fun x => hK.bind (hK.lift _) fun _ =>
    hK.bind (hK.observeUnlocked hg st) fun o => hK.bind (hK.digest _) fun d =>
    hK.bind hK.uuid4 fun id => hK.bind (hK.verified _) fun _ => ?_
  exact hK.recorded (hplain _ ⟨rfl, rfl, rfl⟩) fun _ => hK.pure _

theorem checkpointLocked (hc : ∀ env, quiet (.checkpoint env)) (st : EpisodeState) :
    K Payload (checkpointLocked rt st) :=
  hK.bind (hK.bounded (hc _)) fun _ => hK.bind (hK.lift _) fun _ => hK.pure _

theorem restoreLocked (hg : ∀ c, Gate c → quiet c) {episodeId : String}
    (hr : ∀ env x, quiet (.restore (.restore episodeId) env x))
    (hplain : ∀ r, KernelReceipt .restore r → plain r) (saved : Payload)
    (authorityRef : Option String) (st : EpisodeState) :
    K Receipt (restoreLocked rt episodeId saved authorityRef st) := by
  refine hK.bind (hK.observeUnlocked hg st) fun before => ?_
  split
  · exact hK.recordNew (hplain _ ⟨rfl, rfl, rfl⟩)
  · exact hK.raise _
  refine hK.bind (hK.digest _) fun d =>
    hK.bind (hK.attempt (hK.authorityDecision hg _ _)) fun x => ?_
  split
  · exact hK.recordNew (hplain _ ⟨rfl, rfl, rfl⟩)
  · exact hK.raise _
  split
  case isFalse => exact hK.recordNew (hplain _ ⟨rfl, rfl, rfl⟩)
  refine hK.bind (hK.attempt (hK.bind (hK.bounded (hr _ _)) fun _ => hK.observeUnlocked hg st))
    fun y => ?_
  split
  · exact hK.bind (hK.observeOr hg st before) fun _ => hK.bind (hK.errorDigest _) fun _ =>
      hK.recordNew (hplain _ ⟨rfl, rfl, rfl⟩)
  · exact hK.recordNew (hplain _ ⟨rfl, rfl, rfl⟩)

theorem teardownAdmitted {episodeId : String}
    (ht : ∀ env, quiet (.teardown (.teardown episodeId) env))
    (hplain : ∀ r, KernelReceipt .teardown r → r.episodeId = episodeId → plain r)
    (hbury : ∀ receipt, K Unit (Prog.modify fun w => w.buried episodeId receipt))
    (hdrop : K Unit (Prog.modify fun w => w.dropped episodeId)) (authorityRef : Option String)
    (st : EpisodeState) (before : Observation) (authority : AuthorityDecision) :
    K Receipt (teardownAdmitted rt episodeId authorityRef st before authority) := by
  refine hK.bind (hK.attempt (hK.bounded (ht _))) fun y => ?_
  split
  · exact hK.bind (hK.errorDigest _) fun _ => hK.recordNew (hplain _ ⟨rfl, rfl, rfl⟩ rfl)
  · refine hK.bind (hK.recordNew (hplain _ ⟨rfl, rfl, rfl⟩ rfl)) fun _ => hK.bind hK.getState fun _ =>
      hK.bind (hbury _) fun _ => ?_
    split
    · exact hK.raise _
    · exact hK.bind hdrop fun _ => hK.pure _

theorem teardownLocked (hg : ∀ c, Gate c → quiet c) {episodeId : String}
    {authorityRef : Option String} {st : EpisodeState}
    (hplain : ∀ r, KernelReceipt .teardown r → r.standing ≠ .alive → plain r)
    (hadm : ∀ before authority,
      K Receipt (GymAct.teardownAdmitted rt episodeId authorityRef st before authority)) :
    K Receipt (teardownLocked rt episodeId authorityRef st) :=
  hK.leads ((leads_teardownLocked rt episodeId authorityRef st).weaken hg) fun q ht => by
    cases ht with
    | raise e => exact hK.raise e
    | refuse hep hreceipt hst => exact hK.recordNew (hplain _ hreceipt hst)
    | proceed before authority => exact hadm before authority

theorem actuationExit {intent : ActuationIntent} {intentDigest : String} {receipt : Receipt}
    {result : Receipt → ActuationResult} {cache : Bool}
    (hcache : ∀ entry, K Unit (Prog.modify fun w => w.cacheActuation (actKey intent) entry))
    (hp : plain receipt) (hres : ∀ r, (result r).receipt = r) :
    K ActuationResult (actuationExit rt intent intentDigest receipt result cache) := by
  rw [actuationExit_eq hres]
  refine hK.recorded hp fun r => hK.bind ?_ fun _ => hK.pure _
  cases cache
  · exact hK.idle
  · exact hcache _

/-- `act` under its lock, by what holds of its exits. -/
theorem actLocked (hC : rt.canon.Total) (hg : ∀ c, Gate c → quiet c)
    {intent : ActuationIntent} {intentDigest : String}
    (ha : ∀ env c p, quiet (.actuate (.act intent.episodeId intent.idempotencyKey) env c p))
    (hexit : ∀ {attempt receipt result cache}, ActExit intent attempt receipt result →
      K ActuationResult (GymAct.actuationExit rt intent intentDigest receipt result cache))
    (st : EpisodeState) : K ActuationResult (actLocked rt intent intentDigest st) := by
  refine hK.bind hK.getState fun w => ?_
  split
  · split
    · exact hK.pure _
    · refine hK.leads ((leads_actConflict rt intent intentDigest st).weaken hg) fun q ht => ?_
      cases ht with
      | raise e => exact hK.raise e
      | exit hx => exact hexit hx
  · refine hK.leads ((leads_actFresh rt intent intentDigest st).weaken hg) fun q ht => ?_
    cases ht with
    | raise e => exact hK.raise e
    | exit hx => exact hexit hx
    | @proceed before capability authority hadm =>
      obtain ⟨cs, -, hnamed⟩ := hadm.declared
      obtain ⟨k, hk, hlead⟩ := leads_actReceipted (A := A) rt intent intentDigest st hC before
        authority (capabilityNamed_iri hnamed)
      rw [hk]
      refine hK.leads (.await (ha _ _ _) fun r _ => (hlead r).weaken hg) fun q ht => ?_
      cases ht with
      | exit hx => exact hexit hx

theorem materializationExit {intent : MaterializationIntent} {intentDigest : String}
    {receipt : Receipt} {result : Receipt → MaterializationResult} {cache : Bool}
    (hcache : ∀ key entry, K Unit (Prog.modify fun w => w.cacheMaterialization key entry))
    (hp : plain receipt) (hres : ∀ r, (result r).receipt = r) :
    K MaterializationResult
      (materializationExit rt intent intentDigest receipt result cache) := by
  rw [materializationExit_eq hres]
  refine hK.recorded hp fun r => hK.bind ?_ fun _ => hK.pure _
  cases cache
  · exact hK.idle
  · exact hcache _ _

/-- `materialize` under its lock, by what holds of its exits. -/
theorem materializeLocked {intent : MaterializationIntent} {intentDigest : String}
    (hexit : ∀ {receipt result cache}, KernelReceipt .materialize receipt →
      (∀ r : Receipt, (result r).receipt = r) → K MaterializationResult
        (GymAct.materializationExit rt intent intentDigest receipt result cache))
    (hreg : ∀ id st, K Unit
      (Prog.modify fun w => { w with episodes := Function.update w.episodes id (some st) }))
    (hg : ∀ c, Gate c → quiet c) (hm : ∀ k p s c, quiet (.materialize (.materialize k) p s c))
    (ht : ∀ k env, quiet (.teardown (.materialize k) env)) :
    K MaterializationResult (materializeLocked rt intent intentDigest) := by
  refine hK.bind hK.getState fun w => ?_
  split
  · split
    · exact hK.pure _
    · exact hexit ⟨rfl, rfl, rfl⟩ fun _ => rfl
  refine hK.bind hK.uuid4 fun episodeId => ?_
  unfold materializeFresh
  dsimp only
  split
  · exact hexit ⟨rfl, rfl, rfl⟩ fun _ => rfl
  · exact hK.raise _
  refine hK.bind hK.getState fun w => ?_
  split
  · exact hexit ⟨rfl, rfl, rfl⟩ fun _ => rfl
  refine hK.bind (hK.attempt (hK.authorityDecision hg _ _)) fun x => ?_
  split
  · exact hexit ⟨rfl, rfl, rfl⟩ fun _ => rfl
  · exact hK.raise _
  split
  case isFalse => exact hexit ⟨rfl, rfl, rfl⟩ fun _ => rfl
  refine hK.bind (hK.attempt (hK.bounded (hm _ _ _ _))) fun y => ?_
  split
  · exact hK.bind (hK.errorDigest _) fun _ => hexit ⟨rfl, rfl, rfl⟩ fun _ => rfl
  case h_2 env =>
  refine hK.bind (hK.attempt ?_) fun z => ?_
  · refine hK.bind (hK.immediate (hg (.capabilities env) trivial)) fun cs => ?_
    split
    · exact hK.bind (hK.bounded (hg (.observe env) trivial)) fun _ => hK.bind (hK.lift _) fun _ =>
        hK.pure _
    · exact hK.raise _
  split
  · exact hK.bind (hK.attempt (hK.bounded (ht _ _))) fun _ => hK.bind (hK.errorDigest _) fun _ =>
      hexit ⟨rfl, rfl, rfl⟩ fun _ => rfl
  · exact hK.bind (hreg _ _) fun _ => hK.bind (hK.digest _) fun _ => hexit ⟨rfl, rfl, rfl⟩ fun _ => rfl

/-! ### Operations without a lock -/

theorem registerProvider (hp : ∀ name p, K Unit
      (Prog.modify fun w => { w with providers := Function.update w.providers name (some p) }))
    (provider : Provider) : K Unit (registerProvider provider) := by
  refine hK.bind hK.getState fun w => ?_
  split
  · exact hK.raise _
  · exact hp _ _

theorem capabilities (hg : ∀ c, Gate c → quiet c) (episodeId : String) :
    K (List Capability) (capabilities episodeId) :=
  hK.bind (hK.state episodeId) fun st => hK.immediate (hg (.capabilities st.environment) trivial)

theorem read (hg : ∀ c, Gate c → quiet c) {episodeId : String}
    (hr : ∀ env (c : Capability) p, c.consequence = .read →
      quiet (.actuate (.read episodeId) env c p)) (capabilityRef : String)
    (payload : Option Payload) : K Payload (read episodeId capabilityRef payload) := by
  refine hK.bind (hK.state episodeId) fun st =>
    hK.bind (hK.immediate (hg (.capabilities _) trivial)) fun cs => ?_
  split
  · exact hK.raise _
  · split
    · exact hK.raise _
    case isFalse hread => exact hK.bounded (hr _ _ _ (not_not.mp hread))

end KernelLaw

/-! ### Operations under a lock -/

namespace LockedLaw

theorem materialize_of_exits {intent : MaterializationIntent}
    (hK : LockedLaw rt A quiet quiet' plain K .materialization K')
    (hexit : ∀ {intentDigest receipt result cache}, KernelReceipt .materialize receipt →
      (∀ r : Receipt, (result r).receipt = r) → K' MaterializationResult
        (materializationExit rt intent intentDigest receipt result cache))
    (hreg : ∀ id st, K' Unit
      (Prog.modify fun w => { w with episodes := Function.update w.episodes id (some st) }))
    (hg : ∀ c, Gate c → quiet' c) (hm : ∀ k p s c, quiet' (.materialize (.materialize k) p s c))
    (ht : ∀ k env, quiet' (.teardown (.materialize k) env)) :
    K MaterializationResult (materialize rt intent) :=
  hK.outer.bind (hK.outer.digest _) fun _ =>
    hK.withLock (hK.inner.materializeLocked hexit hreg hg hm ht)

theorem materialize (hK : LockedLaw rt A quiet quiet' plain K .materialization K')
    (hcache : ∀ key entry, K' Unit (Prog.modify fun w => w.cacheMaterialization key entry))
    (hreg : ∀ id st, K' Unit
      (Prog.modify fun w => { w with episodes := Function.update w.episodes id (some st) }))
    (hg : ∀ c, Gate c → quiet' c) (hm : ∀ k p s c, quiet' (.materialize (.materialize k) p s c))
    (ht : ∀ k env, quiet' (.teardown (.materialize k) env))
    (hplain : ∀ r, KernelReceipt .materialize r → plain r) (intent : MaterializationIntent) :
    K MaterializationResult (materialize rt intent) :=
  hK.materialize_of_exits
    (fun ho hres => hK.inner.materializationExit hcache (hplain _ ho) hres) hreg hg hm ht

variable {episodeId : String} (hK : LockedLaw rt A quiet quiet' plain K (.episode episodeId) K')

include hK

theorem observe (hg : ∀ c, Gate c → quiet' c) : K Observation (observe rt episodeId) :=
  hK.outer.bind (hK.outer.state episodeId) fun st => hK.withLock (hK.inner.observeUnlocked hg st)

theorem verify (hg : ∀ c, Gate c → quiet' c) (hv : ∀ env x, quiet' (.verify env x))
    (hplain : ∀ r, KernelReceipt .verify r → plain r) (expected : Payload) :
    K VerificationResult (verify rt episodeId expected) :=
  hK.outer.bind (hK.outer.lift _) fun _ => hK.outer.bind (hK.outer.state episodeId) fun st =>
    hK.withLock (hK.inner.verifyLocked hg hv hplain episodeId expected st)

theorem checkpoint (hc : ∀ env, quiet' (.checkpoint env)) :
    K Payload (checkpoint rt episodeId) :=
  hK.outer.bind (hK.outer.state episodeId) fun st => hK.withLock (hK.inner.checkpointLocked hc st)

theorem restore (hg : ∀ c, Gate c → quiet' c)
    (hr : ∀ env x, quiet' (.restore (.restore episodeId) env x))
    (hplain : ∀ r, KernelReceipt .restore r → plain r) (saved : Payload)
    (authorityRef : Option String) : K Receipt (restore rt episodeId saved authorityRef) :=
  hK.outer.bind (hK.outer.state episodeId) fun st =>
    hK.withLock (hK.inner.restoreLocked hg hr hplain saved authorityRef st)

theorem teardown (hg : ∀ c, Gate c → quiet' c) {authorityRef : Option String}
    (hplain : ∀ r, KernelReceipt .teardown r → r.standing ≠ .alive → plain r)
    (hadm : ∀ st before authority,
      K' Receipt (teardownAdmitted rt episodeId authorityRef st before authority)) :
    K Receipt (teardown rt episodeId authorityRef) := by
  refine hK.outer.bind hK.outer.getState fun w => ?_
  split
  · exact hK.outer.pure _
  · exact hK.outer.bind (hK.outer.state episodeId) fun st =>
      hK.withLock (hK.inner.teardownLocked hg hplain fun before authority =>
        hadm st before authority)

omit hK in
theorem act_of_exits {intent : ActuationIntent}
    (hK : LockedLaw rt A quiet quiet' plain K (.episode intent.episodeId) K')
    (hC : rt.canon.Total) (hg : ∀ c, Gate c → quiet' c)
    (ha : ∀ env c p, quiet' (.actuate (.act intent.episodeId intent.idempotencyKey) env c p))
    (hexit : ∀ {intentDigest attempt receipt result cache},
      ActExit intent attempt receipt result →
      K' ActuationResult (actuationExit rt intent intentDigest receipt result cache)) :
    K ActuationResult (act rt intent) :=
  hK.outer.bind (hK.outer.state _) fun st => hK.outer.bind (hK.outer.digest _) fun _ =>
    hK.withLock (hK.inner.actLocked hC hg ha hexit st)

omit hK in
theorem act {intent : ActuationIntent}
    (hK : LockedLaw rt A quiet quiet' plain K (.episode intent.episodeId) K')
    (hC : rt.canon.Total) (hg : ∀ c, Gate c → quiet' c)
    (ha : ∀ env c p, quiet' (.actuate (.act intent.episodeId intent.idempotencyKey) env c p))
    (hcache : ∀ entry, K' Unit (Prog.modify fun w => w.cacheActuation (actKey intent) entry))
    (hplain : ∀ r, KernelReceipt .act r → plain r) : K ActuationResult (act rt intent) :=
  hK.act_of_exits hC hg ha fun hx =>
    hK.inner.actuationExit hcache (hplain _ hx.kernelReceipt) hx.receipt_eq

end LockedLaw

/-- The calls of the operations other than `act`. -/
def OtherCall : Call → Prop
  | .actuate (.read _) _ capability _ => capability.consequence = .read
  | .actuate .. => False
  | _ => True

theorem otherCall_of_gate {c : Call} (h : Gate c) : OtherCall c := by
  cases c <;> trivial

/-- An operation other than `act` : its calls, the receipts it records and the tables it
changes. -/
theorem LockedLaw.program {K' : LockId → (α : Type) → M Λ α → Prop}
    (hK : ∀ l, LockedLaw rt A quiet quiet plain K l (K' l))
    (hprovider : ∀ name p, K Unit
      (Prog.modify fun w => { w with providers := Function.update w.providers name (some p) }))
    (hcache : ∀ key entry, K' .materialization Unit
      (Prog.modify fun w => w.cacheMaterialization key entry))
    (hreg : ∀ id st, K' .materialization Unit
      (Prog.modify fun w => { w with episodes := Function.update w.episodes id (some st) }))
    (htear : ∀ episodeId authorityRef st before authority, K' (.episode episodeId) Receipt
      (teardownAdmitted rt episodeId authorityRef st before authority))
    (hcall : ∀ c, OtherCall c → quiet c) (hplain : ∀ o r, o ≠ .act → KernelReceipt o r → plain r) {op : Op}
    (hop : ∀ intent, op ≠ .act intent) : K Outcome (op.program rt) := by
  have hlaw := (hK .materialization).outer
  have hg : ∀ c, Gate c → quiet c := fun c hc => hcall c (otherCall_of_gate hc)
  cases op with
  | registerProvider provider => exact hlaw.map (hlaw.registerProvider hprovider provider) _
  | materialize intent =>
    exact hlaw.map ((hK _).materialize hcache hreg hg (fun _ _ _ _ => hcall _ trivial)
      (fun _ _ => hcall _ trivial) (fun r => hplain _ r (by decide)) intent) _
  | capabilities episodeId => exact hlaw.map (hlaw.capabilities hg episodeId) _
  | observe episodeId => exact hlaw.map ((hK _).observe hg) _
  | read episodeId ref payload =>
    exact hlaw.map (hlaw.read hg (fun _ _ _ h => hcall _ h) ref payload) _
  | act intent => exact absurd rfl (hop intent)
  | verify episodeId expected =>
    exact hlaw.map ((hK _).verify hg (fun _ _ => hcall _ trivial) (fun r => hplain _ r (by decide)) expected) _
  | checkpoint episodeId => exact hlaw.map ((hK _).checkpoint fun _ => hcall _ trivial) _
  | restore episodeId saved authorityRef =>
    exact hlaw.map ((hK _).restore hg (fun _ _ => hcall _ trivial) (fun r => hplain _ r (by decide))
      saved authorityRef) _
  | teardown episodeId authorityRef =>
    exact hlaw.map ((hK _).teardown hg (fun r hr _ => hplain _ r (by decide) hr)
      fun st before authority => htear episodeId authorityRef st before authority) _

end Law

end GymAct
