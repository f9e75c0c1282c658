import GymAct.KernelRules

/-!
# What a call of `act` does

The calls of `act` in order, with what each answer leads to : a look at the state, the
capabilities, the authority resolver, the provider, and one or two looks after it.
`post_act_cases` reads a whole call off them : it raises (`ActRaises`), or returns the cached
result, or exits with a receipt (`ActEnds`) that was refused at a gate, or written for an
actuation that failed or that was observed. Callers use it and never unfold `act`.
-/

namespace GymAct

open Coop Coop.Prog

variable {Λ : Type} (rt : Runtime Λ)

/-- Calls with their answers. -/
abbrev Calls := List (Σ c : Call, c.Reply)

/-! ## The parts -/

/-- What a look at the state makes of the environment's answer. -/
def look (st : EpisodeState) (reply : Except ProviderError Payload) : Except Exc Observation :=
  match settle (.boundaryBlocked "OBSERVATION_TIMEOUT") reply with
  | .error e => .error e
  | .ok value =>
    match ensureState rt (.dict value) with
    | .error e => .error e
    | .ok () =>
      match rt.canon.digest (.dict value) with
      | .error e => .error (.canonicalization e)
      | .ok stateDigest => .ok ⟨st.episode.episodeId, value, stateDigest⟩

/-- A look that succeeds sees the answer, within the limits. -/
theorem look_ok {st : EpisodeState} {reply : Except ProviderError Payload} {o : Observation}
    (h : look rt st reply = .ok o) :
    reply = .ok o.state ∧ ensureState rt (.dict o.state) = .ok () ∧
      rt.canon.digest (.dict o.state) = .ok o.stateDigest := by
  unfold look settle at h
  cases reply with
  | error failure => cases failure <;> cases h
  | ok value =>
    dsimp only at h
    split at h
    · cases h
    case h_2 hin =>
      split at h
      · cases h
      case h_2 d hd =>
        cases h
        exact ⟨rfl, hin, hd⟩

/-- What `act` makes of the provider's answer : an effect within the limits. -/
def effectOf (reply : Except ProviderError Payload) : Except Exc Payload :=
  match settle (.boundaryBlocked "ACTUATION_TIMEOUT") reply with
  | .error e => .error e
  | .ok effect => (ensureState rt (.dict effect)).map fun _ => effect

section Parts

variable {rt} {A : (c : Call) → c.Reply → Prop} {w : World Λ} {log : Log (kernelSig Λ)}
  {st : EpisodeState}

theorem post_observeUnlocked {Q : Except Exc Observation → World Λ → Log (kernelSig Λ) → Prop} :
    post A Q (observeUnlocked rt st) w log ↔
      ∀ r, A (.observe st.environment) r →
        Q (look rt st r) w (log ++ [⟨.observe st.environment, r⟩]) := by
  rw [observeUnlocked, post_bind, kernel_post_bounded]
  refine forall_congr' fun r => imp_congr_right fun _ => ?_
  unfold look
  cases settle (.boundaryBlocked "OBSERVATION_TIMEOUT") r with
  | error e => exact Iff.rfl
  | ok value =>
    rw [post_onOk, post_bind, post_lift]
    dsimp only
    cases ensureState rt (.dict value) with
    | error e => exact Iff.rfl
    | ok _ =>
      rw [post_onOk, post_bind, digest, post_lift]
      cases rt.canon.digest (.dict value) <;> exact Iff.rfl

theorem post_observeOr {before : Observation}
    {Q : Except Exc Observation → World Λ → Log (kernelSig Λ) → Prop} :
    post A Q (observeOr rt st before) w log ↔
      ∀ r, A (.observe st.environment) r →
        Q (.ok ((look rt st r).toOption.getD before)) w
          (log ++ [⟨.observe st.environment, r⟩]) := by
  rw [observeOr, post_bind, post_attempt, post_observeUnlocked]
  refine forall_congr' fun r => imp_congr_right fun _ => ?_
  cases look rt st r <;> exact Iff.rfl

/-- The looks after the provider's answer : one when the effect is within the limits. -/
theorem post_actuateAndObserve {intent : ActuationIntent} {capability : Capability}
    {Q : Except Exc (Payload × Observation) → World Λ → Log (kernelSig Λ) → Prop}
    (hQ : ∀ r, A (.actuate (.act intent.episodeId intent.idempotencyKey) st.environment capability
        intent.payload) r →
      let called : Calls := [⟨.actuate (.act intent.episodeId intent.idempotencyKey) st.environment
        capability intent.payload, r⟩]
      (∀ e, effectOf rt r = .error e → Q (.error e) w (log ++ called)) ∧
      ∀ effect, effectOf rt r = .ok effect → ∀ r', A (.observe st.environment) r' →
        Q ((look rt st r').map fun after => (effect, after)) w
          (log ++ called ++ [⟨.observe st.environment, r'⟩])) :
    post A Q (actuateAndObserve rt intent st capability) w log := by
  rw [actuateAndObserve, post_bind, kernel_post_bounded]
  intro r hr
  obtain ⟨herr, hok⟩ := hQ r hr
  unfold effectOf at herr hok
  cases hs : settle (.boundaryBlocked "ACTUATION_TIMEOUT") r with
  | error e => exact herr e (by rw [hs])
  | ok effect =>
    rw [post_onOk, post_bind, post_lift]
    rw [hs] at herr hok
    dsimp only at herr hok
    cases hl : ensureState rt (.dict effect) with
    | error e => exact herr e (by rw [hl]; rfl)
    | ok _ =>
      rw [post_onOk, post_bind, post_observeUnlocked]
      intro r' hr'
      have h := hok effect (by rw [hl]; rfl) r' hr'
      cases hk : look rt st r' <;> simpa [hk, Except.map] using h

/-- The authority resolver is asked when the environment requires it, with a request that
is canonical. -/
theorem post_authorityDecision {required : Bool} {request : AuthorityRequest}
    {Q : Except Exc AuthorityDecision → World Λ → Log (kernelSig Λ) → Prop}
    (hfree : required = false →
      Q (.ok { admitted := true, reason := "AUTHORITY_NOT_REQUIRED" }) w log)
    (hrefused : required = true → ¬ CanonicalIn rt.canon request.modelDump →
      Q (.error (.valueError "INPUT_NOT_RFC8785_CANONICAL")) w log)
    (hasked : required = true → CanonicalIn rt.canon request.modelDump →
      ∀ r, A (.authorize request) r →
        Q (settle (.boundaryBlocked "AUTHORITY_TIMEOUT") r) w (log ++ [⟨.authorize request, r⟩])) :
    post A Q (authorityDecision rt required request) w log := by
  unfold authorityDecision
  split
  case isTrue h =>
    split
    case h_1 e he => exact hrefused h fun ⟨b, hb⟩ => by rw [hb] at he; cases he
    case h_2 b hb => exact hasked h ⟨b, hb⟩
  case isFalse h => exact hfree (eq_false_of_ne_true h)

end Parts

/-! ## How a call ends -/

/-- A result that is not accepted. -/
def refusedWith (observation : Observation) (receipt : Receipt) : ActuationResult :=
  { accepted := false, standing := receipt.standing, observation := some observation, receipt }

/-- A result that is accepted. -/
def actedWith (effect : Payload) (after : Observation) (receipt : Receipt) : ActuationResult :=
  { accepted := true, standing := .alive, effect := some effect, observation := some after, receipt }

/-- What the receipts of `act` have in common : a standing, and the digests of the state
before and after. -/
structure ActReceipt (intent : ActuationIntent) (standing : Standing) (pre post : Observation)
    (receipt : Receipt) : Prop where
  episode : receipt.episodeId = intent.episodeId
  operation : receipt.operation = .act
  standing : receipt.standing = standing
  capability : receipt.capabilityRef = some intent.capability
  principal : receipt.principal = intent.principal
  key : receipt.idempotencyKey = some intent.idempotencyKey
  pre : receipt.preStateDigest = some pre.stateDigest
  post : receipt.postStateDigest = some post.stateDigest
  parents : receipt.parentReceiptIds = []
  effects : receipt.intendedEffects = []

section Ends

variable (intent : ActuationIntent) (st : EpisodeState) (w : World Λ)

/-- The gates of `act` are passed : what was asked, and what was answered. -/
structure ActGates (calls : Calls) (before : Observation) (capability : Capability)
    (authority : AuthorityDecision) : Prop where
  looked : ∃ r rest, calls = ⟨.observe st.environment, r⟩ :: rest ∧ look rt st r = .ok before
  declared : ∃ capabilities, ⟨.capabilities st.environment, .ok capabilities⟩ ∈ calls ∧
    capabilityNamed capabilities intent.capability = some capability
  consequence : capability.consequence = .do
  permitted : rt.permits intent.principal capability.iri = true
  within : ensureInput rt (.dict intent.payload) = .ok ()
  admitted : authority.admitted = true
  authorized : st.environment.requiresAuthority = true →
    CanonicalIn rt.canon (actRequest intent st).modelDump ∧
      ⟨.authorize (actRequest intent st), .ok authority⟩ ∈ calls
  gates : ∀ e ∈ calls, Gate e.1

/-- The call of the provider, with its answer. -/
def actuated (capability : Capability) (r : Except ProviderError Payload) : Σ c : Call, c.Reply :=
  ⟨.actuate (.act intent.episodeId intent.idempotencyKey) st.environment capability intent.payload, r⟩

/-- The provider failed, its effect is over the limit, or the look after it failed. -/
inductive ActFails (r : Except ProviderError Payload) : Calls → Exc → Prop
  | effect {exc : Exc} (h : effectOf rt r = .error exc) : ActFails r [] exc
  | look {effect : Payload} {r' : Except ProviderError Payload} {exc : Exc}
      (heffect : effectOf rt r = .ok effect) (hlook : look rt st r' = .error exc) :
      ActFails r [⟨.observe st.environment, r'⟩] exc

/-- The ways `act` exits with a receipt : the calls made, the receipt, the result of it, and
whether the result is cached. -/
inductive ActEnds (intentDigest : String) : Calls → Receipt → (Receipt → ActuationResult) → Bool → Prop
  /-- The key was used with another intent. -/
  | conflict {r : Except ProviderError Payload} {before : Observation} {receipt : Receipt}
      {entry : ActuationRecord} (hcached : w.actuationIdempotency (actKey intent) = some entry)
      (hother : entry.intentDigest ≠ intentDigest) (hlook : look rt st r = .ok before)
      (hreason : receipt.reason = some "IDEMPOTENCY_KEY_CONFLICT")
      (hreceipt : ActReceipt intent .refused before before receipt) :
      ActEnds intentDigest [⟨.observe st.environment, r⟩] receipt (refusedWith before) false
  /-- A gate is closed. -/
  | refused {calls : Calls} {before : Observation} {receipt : Receipt} {s : Standing}
      (hnew : w.actuationIdempotency (actKey intent) = none) (hgates : ∀ e ∈ calls, Gate e.1)
      (hstanding : s ∈ [Standing.refused, .unsupported, .blocked])
      (hreceipt : ActReceipt intent s before before receipt) :
      ActEnds intentDigest calls receipt (refusedWith before) true
  /-- The provider was asked, and no effect was observed. -/
  | failed {calls rest : Calls} {before after : Observation} {capability : Capability}
      {authority : AuthorityDecision} {r r' : Except ProviderError Payload} {exc : Exc}
      {receipt : Receipt} (hnew : w.actuationIdempotency (actKey intent) = none)
      (hgates : ActGates rt intent st calls before capability authority)
      (hfails : ActFails rt st r rest exc) (hafter : after = (look rt st r').toOption.getD before)
      (hreason : receipt.reason = some exc.reason)
      (hreceipt : ActReceipt intent .blocked before after receipt) :
      ActEnds intentDigest
        (calls ++ actuated intent st capability r :: (rest ++ [⟨.observe st.environment, r'⟩]))
        receipt (refusedWith after) true
  /-- The effect was observed. -/
  | acted {calls : Calls} {before after : Observation} {capability : Capability}
      {authority : AuthorityDecision} {r r' : Except ProviderError Payload} {effect : Payload}
      {receipt : Receipt} (hnew : w.actuationIdempotency (actKey intent) = none)
      (hgates : ActGates rt intent st calls before capability authority)
      (heffect : effectOf rt r = .ok effect) (hafter : look rt st r' = .ok after)
      (hreceipt : ActReceipt intent .alive before after receipt) :
      ActEnds intentDigest
        (calls ++ [actuated intent st capability r, ⟨.observe st.environment, r'⟩])
        receipt (actedWith effect after) true

/-- The ways `act` raises, the ledger's `append` apart. -/
inductive ActRaises : Exc → Calls → Prop
  | unknown (h : w.episodes intent.episodeId = none) :
      ActRaises (.keyError ("unknown episode: " ++ intent.episodeId)) []
  | intent {e : PyError} (h : rt.canon.digest intent.modelDump = .error e) :
      ActRaises (.canonicalization e) []
  | look {st : EpisodeState} {r : Except ProviderError Payload} {e : Exc}
      (hst : w.episodes intent.episodeId = some st) (h : look rt st r = .error e) :
      ActRaises e [⟨.observe st.environment, r⟩]
  | input {st : EpisodeState} {r : Except ProviderError Payload} {e : Exc}
      (h : ensureInput rt (.dict intent.payload) = .error e)
      (huntyped : ∀ code, e ≠ .boundaryBlocked code) :
      ActRaises e [⟨.observe st.environment, r⟩]
  | capabilities {st : EpisodeState} {r : Except ProviderError Payload}
      {r' : Except ProviderError (List Capability)} {e : Exc}
      (h : settle (.provider ⟨"TimeoutError", ""⟩) r' = .error e) :
      ActRaises e [⟨.observe st.environment, r⟩, ⟨.capabilities st.environment, r'⟩]
  | request {st : EpisodeState} {r : Except ProviderError Payload}
      {r' : Except ProviderError (List Capability)}
      (hst : w.episodes intent.episodeId = some st) (hrequired : st.environment.requiresAuthority = true)
      (h : ¬ CanonicalIn rt.canon (actRequest intent st).modelDump) :
      ActRaises (.valueError "INPUT_NOT_RFC8785_CANONICAL")
        [⟨.observe st.environment, r⟩, ⟨.capabilities st.environment, r'⟩]
  | authority {st : EpisodeState} {r : Except ProviderError Payload}
      {r' : Except ProviderError (List Capability)} {e : PyError} :
      ActRaises (.provider e)
        [⟨.observe st.environment, r⟩, ⟨.capabilities st.environment, r'⟩,
          ⟨.authorize (actRequest intent st), .error (.raised e)⟩]

variable {rt intent st w}

theorem ActRaises.gates {e : Exc} {calls : Calls} (h : ActRaises rt intent w e calls) :
    ∀ c ∈ calls, Gate c.1 := by
  cases h <;> simp [Gate]

theorem ActFails.gates {r : Except ProviderError Payload} {rest : Calls} {exc : Exc}
    (h : ActFails rt st r rest exc) : ∀ c ∈ rest, Gate c.1 := by
  cases h <;> simp [Gate]

/-- A call that exits actuates nothing, or the one capability its gates let through. -/
theorem ActEnds.actuates {intentDigest : String} {calls : Calls} {receipt : Receipt}
    {result : Receipt → ActuationResult} {cache : Bool}
    (h : ActEnds rt intent st w intentDigest calls receipt result cache) :
    (∀ e ∈ calls, Gate e.1) ∨
      ∃ asked rest before capability authority r, calls = asked ++ actuated intent st capability r :: rest ∧
        (∀ e ∈ rest, Gate e.1) ∧ w.actuationIdempotency (actKey intent) = none ∧ cache = true ∧
          ActGates rt intent st asked before capability authority := by
  cases h with
  | conflict => exact Or.inl (by simp [Gate])
  | refused _ hgates => exact Or.inl hgates
  | failed hnew hgates hfails =>
    refine Or.inr ⟨_, _, _, _, _, _, rfl, fun e he => ?_, hnew, rfl, hgates⟩
    rcases List.mem_append.mp he with he | he
    · exact hfails.gates e he
    · rw [List.mem_singleton.mp he]
      trivial
  | acted hnew hgates => exact Or.inr ⟨_, _, _, _, _, _, rfl, by simp [Gate], hnew, rfl, hgates⟩

theorem ActEnds.receipt_eq {intentDigest : String} {calls : Calls} {receipt : Receipt}
    {result : Receipt → ActuationResult} {cache : Bool}
    (h : ActEnds rt intent st w intentDigest calls receipt result cache) (r : Receipt) :
    (result r).receipt = r := by
  cases h <;> rfl

end Ends

section Act

variable {rt} {A : (c : Call) → c.Reply → Prop} {w : World Λ} {log : Log (kernelSig Λ)}
  {intent : ActuationIntent} {intentDigest : String} {st : EpisodeState}
  {Q : Except Exc ActuationResult → World Λ → Log (kernelSig Λ) → Prop}

/-- After the gates : the provider, and the receipt of what it did. -/
theorem post_actAdmitted (hC : rt.canon.Total) {calls : Calls} {before : Observation}
    {capability : Capability} {authority : AuthorityDecision}
    (hnew : w.actuationIdempotency (actKey intent) = none)
    (hgates : ActGates rt intent st calls before capability authority)
    (hexit : ∀ calls receipt result cache,
      ActEnds rt intent st w intentDigest calls receipt result cache →
        post A Q (actuationExit rt intent intentDigest receipt result cache) w (log ++ calls)) :
    post A Q (actAdmitted rt intent intentDigest st before capability authority) w (log ++ calls) := by
  have hiri : capability.iri = intent.capability := by
    obtain ⟨_, -, hnamed⟩ := hgates.declared
    exact capabilityNamed_iri hnamed
  rw [actAdmitted, post_bind, post_attempt]
  -- a failure, with the look that follows it
  have hfail : ∀ r rest exc, ActFails rt st r rest exc →
      post A Q (observeOr rt st before >>= fun after => errorDigest rt exc >>= fun errorDigest =>
        actuationRefusal rt intent intentDigest after
          { episodeId := intent.episodeId, operation := .act, standing := .blocked,
            subjectRef := some st.environment.environmentId, capabilityRef := some capability.iri,
            authorityRef := intent.authorityRef, authorityEvidenceRef := authority.evidenceRef,
            idempotencyKey := some intent.idempotencyKey, principal := intent.principal,
            preStateDigest := some before.stateDigest, postStateDigest := some after.stateDigest,
            errorDigest, reason := some exc.reason }) w
        (log ++ calls ++ actuated intent st capability r :: rest) := by
    intro r rest exc hfails
    rw [post_bind, post_observeOr]
    intro r' _
    obtain ⟨d, hd⟩ := errorDigest_eq hC exc
    rw [post_onOk, hd, prog_pure_bind]
    have hlog : log ++ calls ++ actuated intent st capability r :: rest ++
        [⟨.observe st.environment, r'⟩] = log ++ (calls ++ actuated intent st capability r ::
          (rest ++ [⟨.observe st.environment, r'⟩])) := by simp
    rw [hlog]
    exact hexit _ _ _ _ (.failed hnew hgates hfails rfl rfl
      ⟨rfl, rfl, rfl, by rw [hiri], rfl, rfl, rfl, rfl, rfl, rfl⟩)
  refine post_actuateAndObserve fun r _ => ⟨fun exc he => ?_, fun effect heffect r' _ => ?_⟩
  · exact hfail r [] exc (.effect he)
  · cases hl : look rt st r' with
    | error exc =>
      have h := hfail r [⟨.observe st.environment, r'⟩] exc (.look heffect hl)
      simpa [Except.map, actuated] using h
    | ok after =>
      have hlog : log ++ calls ++ [actuated intent st capability r] ++
          [⟨.observe st.environment, r'⟩] = log ++ (calls ++
            [actuated intent st capability r, ⟨.observe st.environment, r'⟩]) := by simp
      refine (congrArg (post A Q _ w) hlog).mpr ?_
      exact hexit _ _ _ _ (.acted hnew hgates heffect hl
        ⟨rfl, rfl, rfl, by rw [hiri], rfl, rfl, rfl, rfl, rfl, rfl⟩)

variable (log) in
/-- After the authority resolver : on with it, or refused. -/
theorem post_actDecided (hC : rt.canon.Total) {before : Observation}
    {r : Except ProviderError Payload} {capabilities : List Capability} {capability : Capability}
    {authority : AuthorityDecision} {more : Calls}
    (hnew : w.actuationIdempotency (actKey intent) = none) (hlook : look rt st r = .ok before)
    (hcap : capabilityNamed capabilities intent.capability = some capability)
    (hdo : capability.consequence = .do) (hpermits : rt.permits intent.principal capability.iri = true)
    (hin : ensureInput rt (.dict intent.payload) = .ok ()) (hmore : ∀ e ∈ more, Gate e.1)
    (hauthorized : st.environment.requiresAuthority = true →
      CanonicalIn rt.canon (actRequest intent st).modelDump ∧
        ⟨.authorize (actRequest intent st), .ok authority⟩ ∈ more)
    (hexit : ∀ calls receipt result cache,
      ActEnds rt intent st w intentDigest calls receipt result cache →
        post A Q (actuationExit rt intent intentDigest receipt result cache) w (log ++ calls)) :
    post A Q (if authority.admitted then
        actAdmitted rt intent intentDigest st before capability authority
      else actuationRefusal rt intent intentDigest before
        { episodeId := intent.episodeId, operation := .act, standing := .refused,
          subjectRef := some st.environment.environmentId, capabilityRef := some capability.iri,
          authorityRef := intent.authorityRef, authorityEvidenceRef := authority.evidenceRef,
          idempotencyKey := some intent.idempotencyKey, principal := intent.principal,
          preStateDigest := some before.stateDigest, postStateDigest := some before.stateDigest,
          reason := some authority.reason }) w
      (log ++ ⟨.observe st.environment, r⟩ ::
        ⟨.capabilities st.environment, .ok capabilities⟩ :: more) := by
  have hgates : ∀ e ∈ (⟨.observe st.environment, r⟩ ::
      ⟨.capabilities st.environment, .ok capabilities⟩ :: more : Calls), Gate e.1 := by
    simpa [Gate] using hmore
  split
  case isTrue hadmitted =>
    refine post_actAdmitted hC hnew ⟨⟨r, _, rfl, hlook⟩, ⟨capabilities, by simp, hcap⟩, hdo, hpermits,
      hin, hadmitted, fun h => ⟨(hauthorized h).1, ?_⟩, hgates⟩ hexit
    simp [(hauthorized h).2]
  case isFalse =>
    exact hexit _ _ _ _ (.refused (s := .refused) hnew hgates (by simp)
      ⟨rfl, rfl, rfl, by rw [capabilityNamed_iri hcap], rfl, rfl, rfl, rfl, rfl, rfl⟩)

/-- After the input limit : the capability gates, the authority resolver, and the rest. -/
theorem post_actCapable (hC : rt.canon.Total) {before : Observation}
    {r : Except ProviderError Payload} (hst : w.episodes intent.episodeId = some st)
    (hnew : w.actuationIdempotency (actKey intent) = none) (hlook : look rt st r = .ok before)
    (hin : ensureInput rt (.dict intent.payload) = .ok ())
    (hraise : ∀ e calls, ActRaises rt intent w e calls → Q (.error e) w (log ++ calls))
    (hexit : ∀ calls receipt result cache,
      ActEnds rt intent st w intentDigest calls receipt result cache →
        post A Q (actuationExit rt intent intentDigest receipt result cache) w (log ++ calls)) :
    post A Q (actCapable rt intent intentDigest st before) w
      (log ++ [⟨.observe st.environment, r⟩]) := by
  rw [actCapable, post_bind, kernel_post_immediate]
  intro r' _
  have hlog : ∀ more : Calls, log ++ [⟨.observe st.environment, r⟩] ++
      ⟨.capabilities st.environment, r'⟩ :: more =
        log ++ ⟨.observe st.environment, r⟩ :: ⟨.capabilities st.environment, r'⟩ :: more := by simp
  rw [hlog []]
  cases hr' : settle (.provider ⟨"TimeoutError", ""⟩) r' with
  | error e => exact hraise _ _ (.capabilities hr')
  | ok capabilities =>
    obtain rfl : r' = .ok capabilities := by
      unfold settle at hr'
      split at hr' <;> cases hr'
      rfl
    have hasked : ∀ e ∈ ([⟨.observe st.environment, r⟩,
        ⟨.capabilities st.environment, .ok capabilities⟩] : Calls), Gate e.1 := by simp [Gate]
    rw [post_onOk]
    cases hcap : capabilityNamed capabilities intent.capability with
    | none =>
      exact hexit _ _ _ _ (.refused (s := .unsupported) hnew hasked (by simp)
        ⟨rfl, rfl, rfl, rfl, rfl, rfl, rfl, rfl, rfl, rfl⟩)
    | some capability =>
      have hiri := capabilityNamed_iri hcap
      have hreceipt : some capability.iri = some intent.capability := by rw [hiri]
      dsimp only
      split
      · exact hexit _ _ _ _ (.refused (s := .refused) hnew hasked (by simp)
          ⟨rfl, rfl, rfl, hreceipt, rfl, rfl, rfl, rfl, rfl, rfl⟩)
      case isFalse hdo =>
        split
        · exact hexit _ _ _ _ (.refused (s := .refused) hnew hasked (by simp)
            ⟨rfl, rfl, rfl, hreceipt, rfl, rfl, rfl, rfl, rfl, rfl⟩)
        case isFalse hpermits =>
          have hrequest : (⟨intent.episodeId, st.environment.environmentId, .act, capability.iri,
              intent.payload, intent.authorityRef, none⟩ : AuthorityRequest) = actRequest intent st := by
            rw [hiri]
            rfl
          rw [actAuthorized, post_bind, post_attempt, hrequest]
          have hdecided : ∀ (more : Calls) authority, (∀ e ∈ more, Gate e.1) →
              (st.environment.requiresAuthority = true →
                CanonicalIn rt.canon (actRequest intent st).modelDump ∧
                  ⟨.authorize (actRequest intent st), .ok authority⟩ ∈ more) → _ :=
            fun more authority hmore hauthorized =>
              post_actDecided log hC hnew hlook hcap (by simpa using hdo)
                (by simpa using hpermits) hin hmore hauthorized hexit
          refine post_authorityDecision (fun hfree => ?_) (fun hrequired hnot => ?_)
            fun _ hcanonical r'' _ => ?_
          · exact hdecided [] { admitted := true, reason := "AUTHORITY_NOT_REQUIRED" } (by simp)
              (by simp [hfree])
          · exact hraise _ _ (.request hst hrequired hnot)
          · have hmore : ∀ e ∈ ([⟨.authorize (actRequest intent st), r''⟩] : Calls), Gate e.1 := by
              simp [Gate]
            have hlog' : log ++ ⟨.observe st.environment, r⟩ ::
                [⟨.capabilities st.environment, .ok capabilities⟩] ++
                  [⟨.authorize (actRequest intent st), r''⟩] =
                log ++ ⟨.observe st.environment, r⟩ ::
                  ⟨.capabilities st.environment, .ok capabilities⟩ ::
                    [⟨.authorize (actRequest intent st), r''⟩] := by simp
            refine (congrArg (post A Q _ w) hlog').mpr ?_
            cases r'' with
            | ok authority => exact hdecided _ authority hmore fun _ => ⟨hcanonical, by simp⟩
            | error failure =>
              cases failure with
              | timeout =>
                refine hexit _ _ _ _ (.refused (s := .blocked) hnew (fun e he => ?_) (by simp)
                  ⟨rfl, rfl, rfl, hreceipt, rfl, rfl, rfl, rfl, rfl, rfl⟩)
                rcases List.mem_cons.mp he with rfl | he
                · trivial
                rcases List.mem_cons.mp he with rfl | he
                · trivial
                · exact hmore e he
              | raised e => exact hraise _ _ .authority

/-- A call of `act`, whatever the outside answers. -/
theorem post_act_cases (hC : rt.canon.Total)
    (hraise : ∀ e calls, ActRaises rt intent w e calls → Q (.error e) w (log ++ calls))
    (hcached : ∀ st entry, w.episodes intent.episodeId = some st →
      w.actuationIdempotency (actKey intent) = some entry →
      rt.canon.digest intent.modelDump = .ok entry.intentDigest → Q (.ok entry.result) w log)
    (hexit : ∀ st intentDigest calls receipt result cache,
      w.episodes intent.episodeId = some st → rt.canon.digest intent.modelDump = .ok intentDigest →
      ActEnds rt intent st w intentDigest calls receipt result cache →
        post A Q (actuationExit rt intent intentDigest receipt result cache) w (log ++ calls)) :
    post A Q (act rt intent) w log := by
  simp only [act, state, post_bind, post_getState, post_onOk]
  cases hst : w.episodes intent.episodeId with
  | none => simpa using hraise _ _ (.unknown hst)
  | some st =>
    simp only [post_pure, post_onOk, digest]
    cases hd : rt.canon.digest intent.modelDump with
    | error e => simpa [Except.mapError] using hraise _ _ (.intent hd)
    | ok intentDigest =>
      have hexit := hexit st intentDigest
      simp only [Except.mapError, post_lift, post_onOk, post_withLock, actLocked, post_bind,
        post_getState]
      cases hk : w.actuationIdempotency (actKey intent) with
      | some entry =>
        dsimp only
        split
        case isTrue he => exact hcached st entry hst hk (he ▸ hd)
        case isFalse hne =>
          rw [actConflict, post_bind, post_observeUnlocked]
          intro r _
          cases hl : look rt st r with
          | error e => exact hraise _ _ (.look hst hl)
          | ok before =>
            exact hexit _ _ _ _ hst hd (.conflict hk hne hl rfl
              ⟨rfl, rfl, rfl, rfl, rfl, rfl, rfl, rfl, rfl, rfl⟩)
      | none =>
        dsimp only
        rw [actFresh, post_bind, post_observeUnlocked]
        intro r _
        cases hl : look rt st r with
        | error e => exact hraise _ _ (.look hst hl)
        | ok before =>
          have hlooked : ∀ e ∈ ([⟨.observe st.environment, r⟩] : Calls), Gate e.1 := by simp [Gate]
          rw [post_onOk]
          cases hin : ensureInput rt (.dict intent.payload) with
          | error e =>
            cases e with
            | boundaryBlocked code =>
              exact hexit _ _ _ _ hst hd (.refused (s := .refused) hk hlooked (by simp)
                ⟨rfl, rfl, rfl, rfl, rfl, rfl, rfl, rfl, rfl, rfl⟩)
            | _ => exact hraise _ _ (.input hin (by simp))
          | ok _ =>
            exact post_actCapable hC hst hk hl hin hraise fun _ _ _ _ => hexit _ _ _ _ hst hd

end Act

/-! ## Recording -/

section Record

variable {rt} {A : (c : Call) → c.Reply → Prop} {w : World Λ} {log : Log (kernelSig Λ)}

/-- A receipt as it is drawn from a world. -/
def World.stamps (w : World Λ) (rt : Runtime Λ) (receipt : Receipt) : Receipt :=
  receipt.stamped (rt.uuid4 w.supply) (rt.now w.supply)

theorem ActReceipt.stamps {intent : ActuationIntent} {standing : Standing} {pre post : Observation}
    {receipt : Receipt} (h : ActReceipt intent standing pre post receipt) (rt : Runtime Λ)
    (w : World Λ) : ActReceipt intent standing pre post (w.stamps rt receipt) :=
  ⟨h.1, h.2, h.3, h.4, h.5, h.6, h.7, h.8, h.9, h.10⟩

theorem post_recordNew {Q : Except Exc Receipt → World Λ → Log (kernelSig Λ) → Prop}
    (receipt : Receipt) :
    post A Q (recordNew rt receipt) w log ↔
      (∀ e, rt.append w.ledger (w.stamps rt receipt) = .error e →
        Q (.error (.ledger e)) w.drawn log) ∧
      ∀ L, rt.append w.ledger (w.stamps rt receipt) = .ok L →
        Q (.ok (w.stamps rt receipt)) (w.drawn.recorded L (w.stamps rt receipt)) log := by
  rw [recordNew, post_bind, post_stamp, post_onOk, post_record]
  exact Iff.rfl

/-- The world once `act` exited. -/
def World.exited (w : World Λ) (L : Λ) (intent : ActuationIntent) (intentDigest : String)
    (result : ActuationResult) (cache : Bool) : World Λ :=
  let w := w.drawn.recorded L result.receipt
  if cache then w.cacheActuation (actKey intent) ⟨intentDigest, result⟩ else w

theorem World.exited_actuationIdempotency (w : World Λ) (L : Λ) (intent : ActuationIntent)
    (intentDigest : String) (result : ActuationResult) :
    (w.exited L intent intentDigest result true).actuationIdempotency =
      Function.update w.actuationIdempotency (actKey intent) (some ⟨intentDigest, result⟩) := rfl

theorem post_actuationExit_iff {intent : ActuationIntent} {intentDigest : String}
    {receipt : Receipt} {result : Receipt → ActuationResult} {cache : Bool}
    {Q : Except Exc ActuationResult → World Λ → Log (kernelSig Λ) → Prop}
    (hres : ∀ r, (result r).receipt = r) :
    post A Q (actuationExit rt intent intentDigest receipt result cache) w log ↔
      (∀ e, rt.append w.ledger (w.stamps rt receipt) = .error e →
        Q (.error (.ledger e)) w.drawn log) ∧
      ∀ L, rt.append w.ledger (w.stamps rt receipt) = .ok L →
        Q (.ok (result (w.stamps rt receipt)))
          (w.exited L intent intentDigest (result (w.stamps rt receipt)) cache) log := by
  rw [actuationExit_eq hres, post_bind, post_stamp, post_onOk, post_bind, post_record]
  refine and_congr Iff.rfl (forall_congr' fun L => imp_congr_right fun _ => ?_)
  rw [post_onOk, post_bind, post_modify, post_onOk, post_pure, World.exited, hres]
  exact Iff.rfl

end Record

/-! ## What a call of `verify` does -/

section Verify

variable {rt} {A : (c : Call) → c.Reply → Prop} {w : World Λ} {log : Log (kernelSig Λ)}
  {episodeId : String} {expected : Payload}
  {Q : Except Exc VerificationResult → World Λ → Log (kernelSig Λ) → Prop}

/-- What is left of `verify` once the environment was looked at : record the judgement. -/
def verifyRest (rt : Runtime Λ) (episodeId : String) (expected : Payload) (st : EpisodeState)
    (providerPassed : Bool) (observed : Payload) (observation : Observation) (stateDigest : String) :
    M Λ VerificationResult := do
  let (passed, reason) := rt.judge expected observation.state
  let verificationId ← uuid4 rt
  let result : VerificationResult :=
    ⟨verificationId, episodeId, passed, expected, observed, stateDigest⟩
  Prog.modify fun w => { w with verifications := w.verifications ++ [result] }
  let _ ← recordNew rt
    { episodeId, operation := .verify, standing := if passed then .alive else .uncertain,
      subjectRef := some st.environment.environmentId, verificationId := some verificationId,
      verified := some passed, postStateDigest := some stateDigest,
      reason := some (verifyReason providerPassed passed reason) }
  pure result

/-- What is left of `verify` returns the judgement, unless the ledger refuses its receipt. -/
theorem post_verifyRest {st : EpisodeState} {providerPassed : Bool} {observed : Payload}
    {observation : Observation} {stateDigest : String}
    (hledger : ∀ e w', Q (.error (.ledger e)) w' log)
    (hok : ∀ result w', result.passed = (rt.judge expected observation.state).1 →
      Q (.ok result) w' log) :
    post A Q (verifyRest rt episodeId expected st providerPassed observed observation stateDigest) w
      log := by
  simp only [verifyRest, uuid4, post_bind, post_getState, post_onOk, post_modify, post_pure,
    post_recordNew]
  exact ⟨fun e _ => hledger e _, fun L _ => hok _ _ rfl⟩

/-- Calls of `verify`. -/
def Verifies : Call → Prop
  | .verify .. | .observe _ => True
  | _ => False

/-- A call of `verify` : it raises, or judges a state that was looked at last. -/
theorem post_verify
    (hraise : ∀ e calls, (∀ c ∈ calls, Verifies c.1) → Q (.error e) w (log ++ calls))
    (hrest : ∀ st providerPassed observed r observation stateDigest,
      w.episodes episodeId = some st → look rt st r = .ok observation →
      rt.canon.digest (.dict observed) = .ok stateDigest →
      post A Q (verifyRest rt episodeId expected st providerPassed observed observation stateDigest) w
        (log ++ [⟨.verify st.environment expected, .ok (providerPassed, observed)⟩,
          ⟨.observe st.environment, r⟩])) :
    post A Q (verify rt episodeId expected) w log := by
  rw [verify, post_bind, post_lift]
  cases ensureInput rt (.dict expected) with
  | error e => simpa using hraise e [] (by simp)
  | ok _ =>
    simp only [post_onOk, state, post_bind, post_getState]
    cases hst : w.episodes episodeId with
    | none => simpa using hraise (.keyError ("unknown episode: " ++ episodeId)) [] (by simp)
    | some st =>
      rw [post_pure, post_onOk, post_withLock, verifyLocked, post_bind, kernel_post_bounded]
      intro r _
      have hcall : ∀ c ∈ ([⟨.verify st.environment expected, r⟩] : Calls), Verifies c.1 := by
        simp [Verifies]
      cases hr : settle (.boundaryBlocked "VERIFICATION_TIMEOUT") r with
      | error e => exact hraise e _ hcall
      | ok x =>
        obtain ⟨providerPassed, observed⟩ := x
        obtain rfl : r = .ok (providerPassed, observed) := by
          unfold settle at hr
          split at hr <;> cases hr
          rfl
        rw [post_onOk, post_bind, post_lift]
        cases ensureState rt (.dict observed) with
        | error e => exact hraise e _ hcall
        | ok _ =>
          rw [post_onOk, post_bind, post_observeUnlocked]
          intro r' _
          have hcalls : ∀ c ∈ ([⟨.verify st.environment expected, .ok (providerPassed, observed)⟩,
              ⟨.observe st.environment, r'⟩] : Calls), Verifies c.1 := by simp [Verifies]
          rw [List.append_assoc]
          cases hl : look rt st r' with
          | error e => exact hraise e _ hcalls
          | ok observation =>
            rw [post_onOk, digest]
            cases hd : rt.canon.digest (.dict observed) with
            | error e => exact hraise _ _ hcalls
            | ok stateDigest =>
              have hrun := hrest st providerPassed observed r' observation stateDigest hst hl hd
              simpa [verifyRest, Except.mapError, recordNew, prog_bind_assoc] using hrun

end Verify

end GymAct
