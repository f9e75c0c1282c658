import GymAct.CrownRuntime

/-!
# What an execution reports

What `executeVerified` and `executeAdmitted` make of a call of `act` (`afterAct`).

`execute_scope_judged` : the principal of the grant is not handed on to the intent, so that
the scope is asked about no principal, and the receipt of the kernel and the bound receipt
of one execution name different principals.

`uncertain_iff` : the outcome of a failed actuation that changed the state is reported as
uncertain exactly when the actuation timed out or the state was seen after it. Otherwise it
is reported as blocked.
-/

namespace GymAct

open Coop Coop.Prog

variable {Λ : Type} (rt : Runtime Λ)

/-! ## After `act` -/

/-- What `executeVerified` does once `act` returned. -/
def afterAct (intent : ActuationIntent) (expected : Payload) (actuation : ActuationResult) :
    M Λ VerifiedTransition := do
  if actuation.accepted = false then
    if possibleUnacknowledgedEffect actuation then
      let uncertain ← recordNew rt (uncertainReceipt actuation.receipt)
      pure { standing := .uncertain, actuation, receipt := uncertain }
    else
      pure { standing := actuation.standing, actuation, receipt := actuation.receipt }
  else
    let verification ← verify rt intent.episodeId expected
    let standing := if verification.passed then Standing.alive else .refused
    let receipt ← recordNew rt (verificationReceipt actuation verification standing
      (if verification.passed then none else some "POSTCONDITION_FAILED"))
    pure { standing, actuation, verification := some verification, receipt }

theorem executeVerified_eq (act : ActuationIntent → M Λ ActuationResult) (intent : ActuationIntent)
    (expected : Payload) :
    executeVerified rt act intent expected = act intent >>= afterAct rt intent expected := rfl

section After

variable {rt} {A : (c : Call) → c.Reply → Prop} {w : World Λ} {log : Log (kernelSig Λ)}
  {intent : ActuationIntent} {expected : Payload}

/-- A result that is not accepted is reported as uncertain, or as it stands. -/
theorem post_afterAct_refused {actuation : ActuationResult} (hrefused : actuation.accepted = false)
    {Q : Except Exc VerifiedTransition → World Λ → Log (kernelSig Λ) → Prop}
    (hledger : ∀ e w', Q (.error (.ledger e)) w' log)
    (huncertain : possibleUnacknowledgedEffect actuation = true → ∀ receipt w',
      Q (.ok { standing := .uncertain, actuation, receipt }) w' log)
    (hstands : possibleUnacknowledgedEffect actuation = false →
      Q (.ok { standing := actuation.standing, actuation, receipt := actuation.receipt }) w log) :
    post A Q (afterAct rt intent expected actuation) w log := by
  rw [afterAct, if_pos hrefused]
  cases hp : possibleUnacknowledgedEffect actuation with
  | true =>
    rw [if_pos rfl, post_bind, post_recordNew]
    exact ⟨fun e _ => hledger e _, fun L _ => huncertain hp _ _⟩
  | false => exact hstands hp

/-- What is returned is about the result of `act`. -/
theorem post_afterAct_actuation {actuation : ActuationResult} :
    post A (fun r _ _ => ∀ t, r = .ok t → t.actuation = actuation)
      (afterAct rt intent expected actuation) w log := by
  by_cases hrefused : actuation.accepted = false
  · refine post_afterAct_refused hrefused (fun _ _ _ h => ?_) (fun _ _ _ t h => ?_) fun _ t h => ?_
    all_goals cases h
    all_goals rfl
  · rw [afterAct, if_neg hrefused]
    refine post_bind_any (fun verification w log => ?_) fun _ _ _ _ h => by cases h
    refine post_bind_any (fun receipt w log t h => ?_) fun _ _ _ _ h => by cases h
    cases h
    rfl

/-! ## An execution -/

/-- Receipt the refusal of a grant. -/
def refuseAdmission (rt : Runtime Λ) (request : BrokerRequest) (reason : String) :
    M Λ VerifiedTransition := do
  let receipt ← recordNew rt
    (admissionReceipt request.action request.prepared request.grant reason)
  let actuation : ActuationResult := { accepted := false, standing := .refused, receipt }
  pure { standing := .refused, actuation, receipt }

/-- Receipt a transition under its grant. -/
def bindTransition (rt : Runtime Λ) (request : BrokerRequest) (transition : VerifiedTransition) :
    M Λ VerifiedTransition := do
  let bound ← recordNew rt
    (boundReceipt request.action request.prepared request.grant transition.receipt)
  pure { transition with receipt := bound }

/-- What is left of an execution once `act` returned. -/
def settleExecution (rt : Runtime Λ) (request : BrokerRequest) (actuation : ActuationResult) :
    M Λ VerifiedTransition :=
  afterAct rt request.intent request.expected actuation >>= bindTransition rt request

/-- The execution of a result that is not accepted stands uncertain, or as the result does. -/
theorem post_settleExecution_refused {request : BrokerRequest} {actuation : ActuationResult}
    (hrefused : actuation.accepted = false) :
    post (S := kernelSig Λ) A (fun r _ _ => ∀ t, r = .ok t → t.actuation = actuation ∧
        t.standing = if possibleUnacknowledgedEffect actuation then .uncertain else actuation.standing)
      (settleExecution rt request actuation) w log := by
  have hbind : ∀ (t : VerifiedTransition) w' log', t.actuation = actuation →
      (t.standing = if possibleUnacknowledgedEffect actuation then .uncertain else actuation.standing) →
      post (S := kernelSig Λ) A (fun r _ _ => ∀ t, r = .ok t → t.actuation = actuation ∧
          t.standing = if possibleUnacknowledgedEffect actuation then .uncertain else actuation.standing)
        (bindTransition rt request t) w' log' := by
    intro t w' log' hactuation hstanding
    rw [bindTransition, post_bind, post_recordNew]
    refine ⟨fun _ _ _ h => (by cases h), fun L _ t' h => ?_⟩
    cases h
    exact ⟨hactuation, hstanding⟩
  rw [settleExecution, post_bind]
  refine post_afterAct_refused hrefused (fun _ _ _ h => by cases h) (fun hp _ _ => ?_) fun hp => ?_
  · exact hbind _ _ _ rfl (by simp [hp])
  · exact hbind _ _ _ rfl (by simp [hp])

/-- An execution : its grant is refused, its intent has no encoding, or it acts. -/
theorem post_brokerExecute {cls : RuntimeClass} {request : BrokerRequest} {moment : ℤ}
    {Q : Except Exc VerifiedTransition → World Λ → Log (kernelSig Λ) → Prop}
    (hrefused : ∀ reason, (admitExecution request.action request.prepared request.grant
        request.currentRevision moment).admitted = false →
      post A Q (refuseAdmission rt request reason) w log)
    (hintent : Q (.error (.valueError "INPUT_NOT_RFC8785_CANONICAL")) w log)
    (hacts : (admitExecution request.action request.prepared request.grant
        request.currentRevision moment).admitted = true →
      CanonicalIn rt.canon request.intent.modelDump →
      post A Q (act rt request.intent >>= settleExecution rt request) w log) :
    post A Q (brokerExecute rt cls request moment) w log := by
  simp only [brokerExecute, brokerAct_eq, executeAdmitted]
  split
  case isTrue h => exact hrefused _ h
  case isFalse h =>
    unfold constructIntent
    split
    · exact hintent
    case h_2 bytes hb =>
      rw [prog_pure_bind, executeVerified_eq, prog_bind_assoc]
      exact hacts (eq_true_of_ne_false h) ⟨bytes, hb⟩

end After

/-! ## Who the scope is asked about -/

/-- `AllowListCapabilityScope.permits` : the grants of the principal, or else those of no
principal. -/
def allowListPermits (grants : Option String → Option (List String)) (principal : Option String)
    (capabilityRef : String) : Bool :=
  match grants principal with
  | some allowed => allowed.contains capabilityRef
  | none => ((grants none).getD []).contains capabilityRef

/-- An actuation is one the scope permits the principal of the grant. -/
def ScopeJudged (request : BrokerRequest) : Call → Prop
  | .actuate .. => rt.permits (some request.grant.principal) request.grant.capabilityRef = true
  | _ => True

instance (request : BrokerRequest) : DecidablePred (ScopeJudged rt request)
  | .actuate .. => inferInstanceAs (Decidable (_ = _))
  | .authorize .. | .materialize .. | .capabilities .. | .observe .. | .verify .. | .checkpoint ..
  | .restore .. | .teardown .. => isTrue trivial

section Principals

variable {rt} {A : (c : Call) → c.Reply → Prop} {w : World Λ} {log : Log (kernelSig Λ)}

/-- A result that was not cached carries the principal of its intent. -/
theorem post_act_principal (hC : rt.canon.Total) (intent : ActuationIntent)
    (hnew : ∀ entry, w.actuationIdempotency (actKey intent) = some entry →
      rt.canon.digest intent.modelDump ≠ .ok entry.intentDigest) :
    post A (fun r _ _ => ∀ result, r = .ok result → result.receipt.principal = intent.principal)
      (act rt intent) w log := by
  refine post_act_cases hC (fun e calls _ result h => by cases h)
    (fun st entry _ hentry hd => absurd hd (hnew entry hentry))
    fun st d calls receipt result cache _ _ h => ?_
  refine (post_actuationExit_iff h.receipt_eq).mpr
    ⟨fun _ _ _ h => (by cases h), fun L _ _ hresult => ?_⟩
  cases hresult
  rw [h.receipt_eq]
  cases h with
  | conflict _ _ _ _ hreceipt => exact hreceipt.principal
  | refused _ _ _ hreceipt => exact hreceipt.principal
  | failed _ _ _ _ _ hreceipt => exact hreceipt.principal
  | acted _ _ _ _ hreceipt => exact hreceipt.principal

/-- The scope is asked about no principal. What a request actuates is permitted to the
principal of its grant exactly when a gate before the provider stops the request or the
scope permits that principal; and in no admitted execution that records a receipt of the
kernel does that receipt name the principal of the bound receipt. -/
theorem execute_scope_judged (hC : rt.canon.Total) (cls : RuntimeClass) (request : BrokerRequest)
    (moment : ℤ) (w : World Λ) :
    ((∀ ω : Oracle (kernelSig Λ), ∀ e ∈ (exec ω (brokerExecute rt cls request moment) w []).2.2,
        ScopeJudged rt request e.1) ↔
      ∀ st, Reaches rt request moment w st →
        rt.permits (some request.grant.principal) request.grant.capabilityRef = true) ∧
    ((admitExecution request.action request.prepared request.grant request.currentRevision
        moment).admitted = true →
      (∀ entry, w.actuationIdempotency (actKey request.intent) = some entry →
        rt.canon.digest request.intent.modelDump ≠ .ok entry.intentDigest) →
      ∀ (ω : Oracle (kernelSig Λ)) t, (exec ω (brokerExecute rt cls request moment) w []).1 = .ok t →
        t.actuation.receipt.principal = none ∧
          t.receipt.principal = some request.grant.principal) := by
  constructor
  · have hother : ∀ c, (∀ site env capability payload, c ≠ .actuate site env capability payload) →
        ScopeJudged rt request c := by
      intro c hc
      cases c with
      | actuate site env capability payload => exact absurd rfl (hc site env capability payload)
      | _ => trivial
    refine (execute_calls_iff hC cls request moment w hother).trans
      ⟨fun h st hr => ?_, fun h st capability hr _ _ => h st hr⟩
    exact h st { iri := request.action.capabilityRef, title := "", consequence := .do, binding := "" }
      hr rfl rfl
  · intro hadmitted hnew ω
    refine exec_of_post (S := kernelSig Λ) (A := fun _ _ => True)
      (Q := fun r _ _ => ∀ t : VerifiedTransition, r = .ok t → t.actuation.receipt.principal = none ∧
        t.receipt.principal = some request.grant.principal) (fun _ _ => trivial) _ ?_
    refine post_brokerExecute (fun reason h => by simp [hadmitted] at h) (fun _ h => by cases h)
      fun _ _ => ?_
    rw [post_bind]
    refine post_mono (fun r w log hact => ?_) _ (post_act_principal hC request.intent hnew)
    cases r with
    | error e => exact fun _ h => by cases h
    | ok result =>
      rw [post_onOk, settleExecution, post_bind]
      refine post_mono (fun r w log hactuation => ?_) _ post_afterAct_actuation
      cases r with
      | error e => exact fun _ h => by cases h
      | ok transition =>
        rw [post_onOk, bindTransition, post_bind, post_recordNew]
        refine ⟨fun _ _ _ h => (by cases h), fun L _ t h => ?_⟩
        cases h
        refine ⟨?_, rfl⟩
        rw [hactuation transition rfl]
        exact hact result rfl

end Principals

/-! ## Effects that are not acknowledged -/

/-- The states an environment goes through along calls : only its actuations change them, and
a look that succeeds sees the state. -/
inductive Lives (C : Canon) (env : Environment) : Payload → Calls → Payload → Prop
  | nil (s : Payload) : Lives C env s [] s
  | observe {s s' : Payload} {reply : Except ProviderError Payload} {calls : Calls}
      (hseen : ∀ v, reply = .ok v → C.canonicalBytes (.dict v) = C.canonicalBytes (.dict s))
      (h : Lives C env s calls s') : Lives C env s (⟨.observe env, reply⟩ :: calls) s'
  | capabilities {s s' : Payload} {reply : Except ProviderError (List Capability)} {calls : Calls}
      (h : Lives C env s calls s') : Lives C env s (⟨.capabilities env, reply⟩ :: calls) s'
  | authorize {s s' : Payload} {request : AuthorityRequest}
      {reply : Except ProviderError AuthorityDecision} {calls : Calls}
      (h : Lives C env s calls s') : Lives C env s (⟨.authorize request, reply⟩ :: calls) s'
  | verify {s s' : Payload} {expected : Payload} {reply : Except ProviderError (Bool × Payload)}
      {calls : Calls} (h : Lives C env s calls s') :
      Lives C env s (⟨.verify env expected, reply⟩ :: calls) s'
  | actuate {s t s' : Payload} {site : Site} {capability : Capability} {payload : Payload}
      {reply : Except ProviderError Payload} {calls : Calls} (h : Lives C env t calls s') :
      Lives C env s (⟨.actuate site env capability payload, reply⟩ :: calls) s'

/-- After the actuation : it timed out, or the last look at the state succeeded. -/
def Noticed (intent : ActuationIntent) (st : EpisodeState) (calls : Calls) : Prop :=
  ∃ asked capability r rest, calls = asked ++ actuated intent st capability r :: rest ∧
    (r = .error .timeout ∨ ∃ before r' o, rest = before ++ [⟨.observe st.environment, r'⟩] ∧
      look rt st r' = .ok o)

section Unacknowledged

variable {rt} {C : Canon} {env : Environment} {s s' : Payload} {calls : Calls}

/-- Gates leave the state alone. -/
theorem Lives.of_gates (hgates : ∀ e ∈ calls, Gate e.1) (h : Lives C env s calls s') : s = s' := by
  induction h with
  | nil => rfl
  | observe _ _ ih | capabilities _ ih | authorize _ ih =>
    exact ih fun e he => hgates e (List.mem_cons_of_mem _ he)
  | verify | actuate => exact absurd (hgates _ (List.mem_cons_self ..)) (by simp [Gate])

theorem Lives.append {rest : Calls} (h : Lives C env s (calls ++ rest) s') :
    ∃ t, Lives C env s calls t ∧ Lives C env t rest s' := by
  induction calls generalizing s with
  | nil => exact ⟨s, .nil s, h⟩
  | cons e calls ih =>
    cases h with
    | observe hseen h =>
      obtain ⟨t, h₁, h₂⟩ := ih h
      exact ⟨t, .observe hseen h₁, h₂⟩
    | capabilities h =>
      obtain ⟨t, h₁, h₂⟩ := ih h
      exact ⟨t, .capabilities h₁, h₂⟩
    | authorize h =>
      obtain ⟨t, h₁, h₂⟩ := ih h
      exact ⟨t, .authorize h₁, h₂⟩
    | verify h =>
      obtain ⟨t, h₁, h₂⟩ := ih h
      exact ⟨t, .verify h₁, h₂⟩
    | actuate h =>
      obtain ⟨t, h₁, h₂⟩ := ih h
      exact ⟨t, .actuate h₁, h₂⟩

/-- A look that succeeds digests the state. -/
theorem Lives.look {st : EpisodeState} {r : Except ProviderError Payload} {rest : Calls}
    {o : Observation} (h : Lives rt.canon st.environment s (⟨.observe st.environment, r⟩ :: rest) s')
    (hlook : look rt st r = .ok o) : rt.canon.digest (.dict s) = .ok o.stateDigest := by
  obtain ⟨hr, -, hd⟩ := look_ok rt hlook
  cases h with
  | observe hseen _ => rw [← hd, Canon.digest_congr (hseen _ hr)]

/-- A log without actuations around one splits there only. -/
theorem split_actuated {asked rest asked' rest' : Calls} {intent : ActuationIntent}
    {st : EpisodeState} {capability capability' : Capability} {r r' : Except ProviderError Payload}
    (hasked : ∀ e ∈ asked, Gate e.1) (hrest : ∀ e ∈ rest, Gate e.1)
    (h : asked ++ actuated intent st capability r :: rest =
      asked' ++ actuated intent st capability' r' :: rest') : r = r' ∧ rest = rest' := by
  have hnot : ∀ c r, ¬ Gate (actuated intent st c r).1 := fun _ _ h => h
  induction asked generalizing asked' with
  | nil =>
    cases asked' with
    | nil =>
      simp only [List.nil_append, List.cons.injEq, actuated, Sigma.mk.injEq, Call.actuate.injEq,
        true_and, and_true] at h
      obtain ⟨⟨rfl, hr⟩, hrest'⟩ := h
      exact ⟨eq_of_heq hr, hrest'⟩
    | cons e asked' =>
      obtain ⟨-, h⟩ := List.cons.inj h
      refine absurd (hrest (actuated intent st capability' r') ?_) (hnot _ _)
      rw [h]
      simp
  | cons e asked ih =>
    cases asked' with
    | nil =>
      obtain ⟨rfl, -⟩ := List.cons.inj h
      exact absurd (hasked _ (List.mem_cons_self ..)) (hnot _ _)
    | cons e' asked' =>
      exact ih (fun e he => hasked e (List.mem_cons_of_mem _ he)) (List.cons.inj h).2

theorem stateExc_look {st : EpisodeState} {r : Except ProviderError Payload} {e : Exc}
    (h : GymAct.look rt st r = .error e) : StateExc e := by
  unfold GymAct.look at h
  split at h
  case h_1 e' hs =>
    cases h
    exact stateExc_settle (by simp [stateCodes]) hs
  · split at h
    case h_1 e' hin =>
      cases h
      exact stateExc_ensureState rt hin
    · split at h
      · cases h
        trivial
      · cases h

theorem providerError_ne (t : String) : "PROVIDER_ERROR:" ++ t ≠ "ACTUATION_TIMEOUT" := by
  intro h
  simpa [String.toList_append] using congrArg String.toList h

/-- The exceptions of a look are not the timeout of an actuation. -/
theorem StateExc.reason_ne {e : Exc} (h : StateExc e) : e.reason ≠ "ACTUATION_TIMEOUT" := by
  cases e with
  | boundaryBlocked code =>
    rintro rfl
    exact absurd h (by simp [StateExc, stateCodes])
  | provider e => exact providerError_ne _
  | canonicalization e => exact providerError_ne _
  | keyError m => exact absurd h id
  | valueError m => exact absurd h id
  | ledger e => exact absurd h id

/-- The reason of a failed actuation names its timeout. -/
theorem ActFails.reason_iff {st : EpisodeState} {r : Except ProviderError Payload} {rest : Calls}
    {exc : Exc} (h : ActFails rt st r rest exc) :
    exc.reason = "ACTUATION_TIMEOUT" ↔ r = .error .timeout := by
  cases h with
  | look heffect hlook =>
    refine ⟨fun h => absurd h (stateExc_look hlook).reason_ne, fun h => ?_⟩
    subst h
    simp [effectOf, settle] at heffect
  | effect h =>
    unfold effectOf settle at h
    cases r with
    | error failure =>
      cases failure with
      | timeout =>
        cases h
        exact ⟨fun _ => rfl, fun _ => rfl⟩
      | raised e =>
        cases h
        exact ⟨fun h => absurd h (providerError_ne _), fun h => by simp at h⟩
    | ok effect =>
      dsimp only at h
      cases hin : ensureState rt (.dict effect) with
      | ok _ => simp [hin, Except.map] at h
      | error e =>
        obtain rfl : e = exc := by simpa [hin, Except.map] using h
        exact ⟨fun h => absurd h (stateExc_ensureState rt hin).reason_ne, fun h => by simp at h⟩

/-- A failed actuation that changed the state is taken for an unacknowledged effect when it
timed out, or the state was seen after it. -/
theorem possibleUnacknowledgedEffect_iff (hF : rt.canon.CollisionFree) {intent : ActuationIntent}
    {st : EpisodeState} {asked rest : Calls} {before after : Observation} {capability : Capability}
    {authority : AuthorityDecision} {r r' : Except ProviderError Payload} {exc : Exc}
    {receipt : Receipt} (hgates : ActGates rt intent st asked before capability authority)
    (hfails : ActFails rt st r rest exc) (hafter : after = (GymAct.look rt st r').toOption.getD before)
    (hreason : receipt.reason = some exc.reason)
    (hreceipt : ActReceipt intent .blocked before after receipt)
    (hlives : Lives rt.canon st.environment s
      (asked ++ actuated intent st capability r :: (rest ++ [⟨.observe st.environment, r'⟩])) s')
    (hchanged : rt.canon.canonicalBytes (.dict s) ≠ rt.canon.canonicalBytes (.dict s')) :
    possibleUnacknowledgedEffect (refusedWith after receipt) = true ↔
      Noticed rt intent st
        (asked ++ actuated intent st capability r :: (rest ++ [⟨.observe st.environment, r'⟩])) := by
  -- the state before the actuation, and the one after it
  obtain ⟨t, hasked, hrest⟩ := hlives.append
  obtain rfl := hasked.of_gates hgates.gates
  obtain ⟨u, hlast⟩ : ∃ u, Lives rt.canon st.environment u (rest ++ [⟨.observe st.environment, r'⟩]) s' := by
    cases hrest with
    | actuate h => exact ⟨_, h⟩
  obtain ⟨v, hfirst, hlast⟩ := hlast.append
  obtain rfl := hfirst.of_gates hfails.gates
  obtain rfl : u = s' := by
    cases hlast with
    | observe _ h => cases h; rfl
  obtain ⟨r₀, more, rfl, hlook₀⟩ := hgates.looked
  have hbefore := hasked.look hlook₀
  have hunique : ∀ {asked' capability' r₁ rest'},
      ⟨.observe st.environment, r₀⟩ :: more ++ actuated intent st capability r ::
          (rest ++ [⟨.observe st.environment, r'⟩]) =
        asked' ++ actuated intent st capability' r₁ :: rest' →
      r = r₁ ∧ rest ++ [⟨.observe st.environment, r'⟩] = rest' := fun h =>
    split_actuated hgates.gates (fun e he => by
      rcases List.mem_append.mp he with he | he
      · exact hfails.gates e he
      · rw [List.mem_singleton.mp he]
        trivial) h
  have hreasons := hfails.reason_iff
  cases hlook : GymAct.look rt st r' with
  | ok o =>
    -- the state was seen : its digest is another one
    have hne : before.stateDigest ≠ o.stateDigest := by
      intro he
      exact hchanged (hF.bytes_eq hbefore (he ▸ hlast.look hlook))
    have hafter : after = o := by rw [hafter, hlook]; rfl
    have hpossible : possibleUnacknowledgedEffect (refusedWith after receipt) = true := by
      simp [possibleUnacknowledgedEffect, refusedWith, worldChanged, hreceipt.pre, hreceipt.post,
        hafter, hne]
    exact ⟨fun _ => ⟨_, _, _, _, rfl, Or.inr ⟨rest, r', o, rfl, hlook⟩⟩, fun _ => hpossible⟩
  | error e =>
    -- the state was not seen : the receipt has the digest of before
    have hafter : after = before := by rw [hafter, hlook]; rfl
    have hpossible : possibleUnacknowledgedEffect (refusedWith after receipt) = true ↔
        r = .error .timeout := by
      simp [possibleUnacknowledgedEffect, refusedWith, worldChanged, hreceipt.pre, hreceipt.post,
        hafter, hreason, hreasons]
    rw [hpossible]
    constructor
    · intro h
      exact ⟨_, _, _, _, rfl, Or.inl h⟩
    · rintro ⟨asked', capability', r₁, rest', hsplit, hnoticed⟩
      obtain ⟨rfl, rfl⟩ := hunique hsplit
      rcases hnoticed with h | ⟨before', r₂, o, hlast', hlook'⟩
      · exact h
      · obtain ⟨-, hr⟩ := List.append_inj' hlast' rfl
        simp only [List.cons.injEq, Sigma.mk.injEq, heq_eq_eq, and_true, true_and] at hr
        rw [← hr, hlook] at hlook'
        cases hlook'

end Unacknowledged

/-- The sample runtime under an allow list. -/
def scopedRuntime (grants : Option String → Option (List String)) : Runtime MemoryReceiptLedger :=
  { sampleRuntime with permits := allowListPermits grants }

/-- The capability of the sample runs for anybody. -/
def openGrants : Option String → Option (List String)
  | none => some [sampleCapability.iri]
  | some _ => none

/-- The capability of the sample runs for no principal, and nothing for the operator. -/
def closedGrants : Option String → Option (List String)
  | none => some [sampleCapability.iri]
  | some "operator" => some []
  | some _ => none

theorem execute_scope_judged_sample :
    (∀ ω : Oracle (kernelSig MemoryReceiptLedger),
      ∀ e ∈ (exec ω (brokerExecute (scopedRuntime openGrants) .production
        (sampleRequest sampleSubject) 0) twoEpisodesWorld []).2.2,
          ScopeJudged (scopedRuntime openGrants) (sampleRequest sampleSubject) e.1) ∧
    ∀ (ω : Oracle (kernelSig MemoryReceiptLedger)) t,
      (exec ω (brokerExecute (scopedRuntime openGrants) .production (sampleRequest sampleSubject) 0)
        twoEpisodesWorld []).1 = .ok t →
          t.actuation.receipt.principal = none ∧ t.receipt.principal = some "operator" := by
  obtain ⟨hscope, hreceipts⟩ := @execute_scope_judged _ (scopedRuntime openGrants)
    Canon.reference_total .production (sampleRequest sampleSubject) 0 twoEpisodesWorld
  refine ⟨hscope.mpr fun st _ => by decide +kernel, hreceipts (by decide +kernel) fun entry he => ?_⟩
  have hnone : twoEpisodesWorld.actuationIdempotency (actKey (sampleRequest sampleSubject).intent) =
      none := by decide +kernel
  exact absurd (hnone.symm.trans he) (by simp)

/-- The operator of the grant is permitted nothing : the environment is actuated, and the two
receipts name different principals. -/
theorem execute_out_of_scope :
    let run := exec sampleOutside (brokerExecute (scopedRuntime closedGrants) .production
      (sampleRequest sampleSubject) 0) twoEpisodesWorld []
    (¬ ∀ e ∈ run.2.2, ScopeJudged (scopedRuntime closedGrants) (sampleRequest sampleSubject) e.1) ∧
      run.1.toOption.map (fun t => (t.actuation.receipt.principal, t.receipt.principal)) =
        some (none, some "operator") := by
  decide +kernel

/-- The environment of episode `a` of the sample runs. -/
def sampleEnvironment : Environment := ⟨0, "urn:gymact:environment:", false⟩

/-- An outside whose actuation raises; `seen` tells whether the state can be looked at after it. -/
def faultyOutside (seen : Bool) (log : KernelLog) : (c : Call) → c.Reply
  | .observe _ =>
    if log.any fun e => e.1.isAct then
      if seen then .ok [("x", .int 1)] else .error (.raised ⟨"ConnectionError", "gone"⟩)
    else .ok [("x", .int 0)]
  | .actuate .. => .error (.raised ⟨"ConnectionError", "reset"⟩)
  | c => sampleOutside log c

/-- The run of an execution against it. -/
def faultyRun (seen : Bool) : Except Exc VerifiedTransition × MemoryWorld × KernelLog :=
  exec (faultyOutside seen)
    (executeVerified sampleRuntime (act sampleRuntime) (sampleAct "a" "k") []) twoEpisodesWorld []

/-- The calls of that run. -/
def faultyCalls (seen : Bool) : Calls :=
  [⟨.observe sampleEnvironment, .ok [("x", .int 0)]⟩,
    ⟨.capabilities sampleEnvironment, .ok [sampleCapability]⟩,
    ⟨.actuate (.act "a" "k") sampleEnvironment sampleCapability [],
      .error (.raised ⟨"ConnectionError", "reset"⟩)⟩,
    ⟨.observe sampleEnvironment,
      if seen then .ok [("x", .int 1)] else .error (.raised ⟨"ConnectionError", "gone"⟩)⟩]

instance : (c : Call) → DecidableEq c.Reply
  | .authorize _ | .materialize .. | .capabilities _ | .observe _ | .actuate .. | .verify ..
  | .checkpoint _ | .restore .. | .teardown .. => inferInstance

theorem faultyRun_calls : ∀ seen, (faultyRun seen).2.2 = faultyCalls seen := by
  decide +kernel

/-- The actuation changes the state from 0 to 1. -/
theorem lives_faultyRun (seen : Bool) :
    Lives .reference sampleEnvironment [("x", .int 0)] (faultyRun seen).2.2 [("x", .int 1)] := by
  rw [faultyRun_calls]
  refine .observe (by simp) (.capabilities (.actuate (.observe ?_ (.nil _))))
  cases seen <;> simp

end GymAct
