import GymAct.Cut
import GymAct.Verdicts

/-!
# Sequences of executions

A client of one runtime calls kernel operations, the two brokers and the reconciliation
of what they returned, in any order (`runCrown`). Only `act` changes the idempotency index
and only `act` actuates a DO capability, so what it owes is shown of the operations that
act (`post_acting`) and is kept by all others (`keeps_indexed`).

`production_do_granted` : a production runtime actuates a DO capability inside an
execution with an admitted grant only, past the gates of scope and authority.

`key_consumed` : what is consumed by an actuation is the key of the prepared action, in its
episode. The grant is not : `grant_reused` actuates twice on one.

`alive_verified` : an execution that stands alive ends with a look at the environment whose
state meets what the request expects; what the action declares is not asked
(`alive_undeclared`).
-/

namespace GymAct

open Coop Coop.Prog

variable {Λ : Type} (rt : Runtime Λ)

/-! ## A client -/

/-- The program of an operation of a runtime. -/
def RuntimeClass.program (cls : RuntimeClass) : Op → M Λ Outcome
  | .act intent => .acted <$> cls.act rt intent
  | op => op.program rt

/-- A call of a client. -/
inductive CrownOp (C : Canon)
  | kernel (op : Op)
  | execute (request : BrokerRequest) (moment : ℤ)
  | executeCut (request : CombinatorialBrokerRequest C) (moment : ℤ)
  /-- Reconcile the transition an earlier call returned, by its place. -/
  | reconcile (place : ℕ) (expected : Payload)

/-- The program of a call, after the transitions `returned` : the transition it returns. -/
def CrownOp.program (cls : RuntimeClass) (returned : List VerifiedTransition) :
    CrownOp rt.canon → M Λ (Option VerifiedTransition)
  | .kernel op => (fun _ => none) <$> cls.program rt op
  | .execute request moment => some <$> brokerExecute rt cls request moment
  | .executeCut request moment => some <$> combinatorialExecute rt cls request moment
  | .reconcile place expected =>
    match returned[place]? with
    | none => pure none
    | some transition => (fun _ => none) <$> reconcileUncertain rt transition expected

/-- The tables, the calls made to the outside, and the transitions returned. -/
structure CrownState (Λ : Type) where
  world : World Λ
  log : Calls := []
  returned : List VerifiedTransition := []

namespace CrownState

variable (cls : RuntimeClass) (ω : Oracle (kernelSig Λ)) (s : CrownState Λ)

/-- One call : its outcome, the tables after it, and the calls it made. -/
def call (op : CrownOp rt.canon) : Except Exc (Option VerifiedTransition) × World Λ × Calls :=
  exec (fun log => ω (s.log ++ log)) (op.program rt cls s.returned) s.world []

/-- A call that raises does not stop the client. -/
def step (op : CrownOp rt.canon) : CrownState Λ :=
  { world := (s.call rt cls ω op).2.1
    log := s.log ++ (s.call rt cls ω op).2.2
    returned := s.returned ++ ((s.call rt cls ω op).1.toOption.getD none).toList }

/-- Calls in turn. -/
def run : List (CrownOp rt.canon) → CrownState Λ
  | ops => ops.foldl (fun s op => s.step rt cls ω op) s

variable {rt cls ω s}

theorem run_append (pre post : List (CrownOp rt.canon)) :
    s.run rt cls ω (pre ++ post) = (s.run rt cls ω pre).run rt cls ω post :=
  List.foldl_append

@[simp] theorem run_cons (op : CrownOp rt.canon) (ops : List (CrownOp rt.canon)) :
    s.run rt cls ω (op :: ops) = (s.step rt cls ω op).run rt cls ω ops := rfl

/-- What `post` promises of the program of a call holds of the call. -/
theorem call_of_post {op : CrownOp rt.canon}
    {Q : Except Exc (Option VerifiedTransition) → World Λ → Log (kernelSig Λ) → Prop}
    (h : post (S := kernelSig Λ) (fun _ _ => True) Q (op.program rt cls s.returned) s.world []) :
    Q (s.call rt cls ω op).1 (s.call rt cls ω op).2.1 (s.call rt cls ω op).2.2 :=
  exec_of_post (fun _ _ => trivial) _ h

/-- An invariant of the calls is one of the runs. -/
theorem run_induction {P : CrownState Λ → Prop} (hstep : ∀ s op, P s → P (s.step rt cls ω op)) :
    ∀ (ops : List (CrownOp rt.canon)) {s : CrownState Λ}, P s → P (s.run rt cls ω ops)
  | [], _, h => h
  | op :: ops, s, h => run_induction hstep ops (hstep s op h)

end CrownState

/-! ## Calls that act -/

/-- The intent a call acts on. -/
def CrownOp.intent? {C : Canon} (cls : RuntimeClass) : CrownOp C → Option ActuationIntent
  | .kernel (.act intent) => if cls = .reference then some intent else none
  | .kernel _ | .reconcile .. => none
  | .execute request _ => some request.intent
  | .executeCut request _ => some request.brokerRequest.intent

/-- The broker request of a call, and its moment. -/
def CrownOp.request? {C : Canon} : CrownOp C → Option (BrokerRequest × ℤ)
  | .kernel _ | .reconcile .. => none
  | .execute request moment => some (request, moment)
  | .executeCut request moment => some (request.brokerRequest, moment)

/-- The grant of a request, where there is one, is admitted. -/
def CrownOp.Admitted {C : Canon} (op : CrownOp C) : Prop :=
  ∀ request moment, op.request? = some (request, moment) →
    (admitExecution request.action request.prepared request.grant request.currentRevision
      moment).admitted = true

section Indexed

variable {rt} {A : (c : Call) → c.Reply → Prop} {I : ActCache → Calls → Prop}
  (hI : ∀ cache log c r, OtherCall c → I cache log → I cache (log ++ [⟨c, r⟩]))

include hI

theorem keeps_recordNew (receipt : Receipt) :
    Keeps A (fun (w : World Λ) log => I w.actuationIdempotency log) (recordNew rt receipt) :=
  (indexed_law rt hI).recordNew trivial

theorem keeps_verify (episodeId : String) (expected : Payload) :
    Keeps A (fun (w : World Λ) log => I w.actuationIdempotency log)
      (verify rt episodeId expected) :=
  (indexed_lockedLaw rt hI _).verify (fun _ => otherCall_of_gate) (fun _ _ => trivial)
    (fun _ _ => trivial) expected

theorem keeps_settleExecution (request : BrokerRequest) (actuation : ActuationResult) :
    Keeps A (fun (w : World Λ) log => I w.actuationIdempotency log)
      (settleExecution rt request actuation) := by
  have hlaw := indexed_law rt hI (A := A)
  refine hlaw.bind ?_ fun transition => hlaw.bind (keeps_recordNew hI _) fun _ => hlaw.pure _
  unfold afterAct
  split
  · split
    · exact hlaw.bind (keeps_recordNew hI _) fun _ => hlaw.pure _
    · exact hlaw.pure _
  · exact hlaw.bind (keeps_verify hI _ _) fun _ => hlaw.bind (keeps_recordNew hI _) fun _ =>
      hlaw.pure _

/-- A port that may not act looks at the state and records a refusal. -/
theorem keeps_refusePort (intent : ActuationIntent) (reason : String) :
    Keeps A (fun (w : World Λ) log => I w.actuationIdempotency log)
      (refusePort rt intent reason) := by
  have hlaw := indexed_law rt hI (A := A)
  refine hlaw.bind (hlaw.state _) fun st => (indexed_lockedLaw rt hI _).withLock ?_
  exact hlaw.bind (hlaw.observeUnlocked (fun _ => otherCall_of_gate) st) fun _ =>
    hlaw.bind (keeps_recordNew hI _) fun _ => hlaw.pure _

/-- An operation other than `act`. -/
theorem keeps_otherOp {op : Op} (hop : ∀ intent, op ≠ .act intent) :
    Keeps A (fun (w : World Λ) log => I w.actuationIdempotency log) (op.program rt) := by
  have hlaw := indexed_law rt hI (A := A)
  exact LockedLaw.program (indexed_lockedLaw rt hI) (fun _ _ => Keeps.modify fun _ _ h => h)
    (fun _ _ => Keeps.modify fun _ _ h => h) (fun _ _ => Keeps.modify fun _ _ h => h)
    (fun _ authorityRef st before authority =>
      hlaw.teardownAdmitted (fun _ => trivial) (fun _ _ _ => trivial)
        (fun _ => Keeps.modify fun _ _ h => h) (Keeps.modify fun _ _ h => h) authorityRef st before
        authority)
    (fun _ h => h) (fun _ _ _ _ => trivial) hop

/-- A call that does not act. -/
theorem keeps_indexed {cls : RuntimeClass} (returned : List VerifiedTransition)
    {op : CrownOp rt.canon} (hop : op.intent? cls = none) :
    Keeps A (fun (w : World Λ) log => I w.actuationIdempotency log)
      (op.program rt cls returned) := by
  have hlaw := indexed_law rt hI (A := A)
  cases op with
  | kernel op =>
    refine hlaw.map ?_ _
    by_cases hact : ∃ intent, op = .act intent
    · obtain ⟨intent, rfl⟩ := hact
      cases cls with
      | reference => simp [CrownOp.intent?] at hop
      | production => exact hlaw.map (keeps_refusePort hI intent _) _
    · have hact : ∀ intent, op ≠ .act intent := fun intent h => hact ⟨intent, h⟩
      have h : Keeps A (fun (w : World Λ) log => I w.actuationIdempotency log) (op.program rt) :=
        keeps_otherOp hI hact
      cases op <;> first | exact h | exact absurd rfl (hact _)
  | execute request moment | executeCut request moment => simp [CrownOp.intent?] at hop
  | reconcile place expected =>
    unfold CrownOp.program
    dsimp only
    split
    · exact hlaw.pure _
    · refine hlaw.map ?_ _
      unfold reconcileUncertain
      split
      · exact hlaw.raise _
      · exact hlaw.bind (keeps_verify hI _ _) fun _ => hlaw.bind (keeps_recordNew hI _) fun _ =>
          hlaw.pure _

/-- A call that acts : what `act` owes, and the rest keeps. -/
theorem post_acting {cls : RuntimeClass} {returned : List VerifiedTransition}
    {op : CrownOp rt.canon} {intent : ActuationIntent} (hop : op.intent? cls = some intent)
    {w : World Λ} {log : Calls} {E : Exc → World Λ → Calls → Prop}
    {Q : Except Exc (Option VerifiedTransition) → World Λ → Calls → Prop}
    (hQ : ∀ r w log, I w.actuationIdempotency log → Q r w log)
    (hE : ∀ e w log, E e w log → Q (.error e) w log) (hw : I w.actuationIdempotency log)
    (hact : op.Admitted → post (S := kernelSig Λ) A (fun r w log =>
        (∀ result, r = .ok result → I w.actuationIdempotency log) ∧
          ∀ e, r = .error e → E e w log) (act rt intent) w log) :
    post (S := kernelSig Λ) A Q (op.program rt cls returned) w log := by
  have hlaw := indexed_law rt hI (A := A)
  have hkeeps : ∀ {p : M Λ (Option VerifiedTransition)} {w log},
      Keeps A (fun (w : World Λ) log => I w.actuationIdempotency log) p →
        I w.actuationIdempotency log → post (S := kernelSig Λ) A Q p w log :=
    fun hp h => post_mono hQ _ (hp _ _ h)
  -- the execution of a request, and what a broker makes of it
  have hexecute : ∀ request moment (f : VerifiedTransition → M Λ (Option VerifiedTransition)),
      op.request? = some (request, moment) → intent = request.intent →
      (∀ transition, Keeps A (fun (w : World Λ) log => I w.actuationIdempotency log)
        (f transition)) →
      post (S := kernelSig Λ) A Q (brokerExecute rt cls request moment >>= f) w log := by
    intro request moment f hrequest hintent hf
    rw [post_bind]
    refine post_brokerExecute (fun reason _ => ?_) (hQ _ _ _ hw) fun hadmitted _ => ?_
    · rw [← post_bind]
      exact hkeeps (hlaw.bind (hlaw.bind (keeps_recordNew hI _) fun _ => hlaw.pure _) hf) hw
    · rw [← post_bind, prog_bind_assoc, post_bind, ← hintent]
      refine post_mono (fun r w log h => ?_) _ (hact fun request' moment' h' => ?_)
      · cases r with
        | error e => exact hE e w log (h.2 e rfl)
        | ok result =>
          exact hkeeps (hlaw.bind (keeps_settleExecution hI request result) hf) (h.1 result rfl)
      · rw [hrequest] at h'
        cases h'
        exact hadmitted
  cases op with
  | kernel op =>
    cases op with
    | act intent' =>
      have hcls : cls = .reference ∧ intent' = intent := by simpa [CrownOp.intent?] using hop
      obtain ⟨rfl, rfl⟩ := hcls
      refine (post_map _ _).mpr ((post_map _ _).mpr (post_mono (fun r w log h => ?_) _
        (hact fun _ _ h => by simp [CrownOp.request?] at h)))
      cases r with
      | error e => exact hE e w log (h.2 e rfl)
      | ok result => exact hQ _ _ _ (h.1 result rfl)
    | _ => simp [CrownOp.intent?] at hop
  | reconcile place expected => simp [CrownOp.intent?] at hop
  | execute request moment =>
    exact hexecute request moment (fun t => pure (some t)) rfl (Option.some.inj hop).symm
      fun _ => hlaw.pure _
  | executeCut request moment =>
    have h := hexecute request.brokerRequest moment (fun transition => recordNew rt
        (combinatorialReceipt request.selection transition.receipt) >>= fun receipt =>
          pure (some { transition with receipt })) rfl (Option.some.inj hop).symm
      fun _ => hlaw.bind (keeps_recordNew hI _) fun _ => hlaw.pure _
    have hprogram : CrownOp.program rt cls returned (.executeCut request moment) =
        brokerExecute rt cls request.brokerRequest moment >>= fun transition => recordNew rt
          (combinatorialReceipt request.selection transition.receipt) >>= fun receipt =>
            pure (some { transition with receipt }) :=
      (prog_bind_assoc _ _ _).trans (congrArg (brokerExecute rt cls request.brokerRequest moment >>= ·)
        (funext fun transition => prog_bind_assoc _ _ _))
    rw [hprogram]
    exact h

end Indexed

/-! ## Actuations are granted -/

/-- What stands behind an actuation : the admitted grant of a request for the episode,
the capability and the payload, the scope, and the authority resolver where the environment
requires one. -/
structure Granted (rt : Runtime Λ) (w : World Λ) (request : BrokerRequest) (moment : ℤ)
    (asked : Calls) (env : Environment) (capability : Capability) (payload : Payload) : Prop where
  admitted : (admitExecution request.action request.prepared request.grant
    request.currentRevision moment).admitted = true
  episode : (w.episodes request.prepared.episodeId).map EpisodeState.environment = some env
  names : capability.iri = request.grant.capabilityRef
  sends : payload = request.prepared.payload
  permitted : rt.permits none capability.iri = true
  authorized : env.requiresAuthority = true → ∃ decision : AuthorityDecision,
    decision.admitted = true ∧
      ⟨.authorize
        { episodeId := request.prepared.episodeId, subjectRef := env.environmentId,
          operation := .act, capabilityRef := capability.iri, payload := payload,
          authorityRef := some request.grant.authorityRef }, .ok decision⟩ ∈ asked

/-- Every actuation of a DO capability in a log has `J`, with what was asked before it. -/
def DoCalls (J : Calls → Environment → Capability → Payload → Prop) (log : Calls) : Prop :=
  ∀ asked site env capability payload reply rest,
    log = asked ++ ⟨.actuate site env capability payload, reply⟩ :: rest →
      capability.consequence = .do → J asked env capability payload

section Granted

variable {rt} {J J' : Calls → Environment → Capability → Payload → Prop}

/-- Other calls actuate no DO capability. -/
theorem no_do_of_other {log asked rest : Calls} {site : Site} {env : Environment}
    {capability : Capability} {payload : Payload} {reply : Except ProviderError Payload}
    (h : ∀ e ∈ log, OtherCall e.1)
    (hlog : log = asked ++ ⟨.actuate site env capability payload, reply⟩ :: rest) :
    capability.consequence ≠ .do := by
  have hcall : OtherCall (.actuate site env capability payload) :=
    h _ (hlog ▸ List.mem_append_right _ (List.mem_cons_self ..))
  cases site with
  | read episodeId =>
    have hread : capability.consequence = .read := hcall
    simp [hread]
  | _ => exact absurd hcall id

theorem DoCalls.of_other {log : Calls} (h : ∀ e ∈ log, OtherCall e.1) : DoCalls J log := by
  intro asked site env capability payload reply rest hlog hdo
  exact absurd hdo (no_do_of_other h hlog)

theorem DoCalls.mono {log : Calls} (h : DoCalls J log)
    (hJ : ∀ asked env capability payload, J asked env capability payload →
      J' asked env capability payload) : DoCalls J' log :=
  fun _ _ _ _ _ _ _ hlog hdo => hJ _ _ _ _ (h _ _ _ _ _ _ _ hlog hdo)

/-- A log with other calls only after a place : its actuations of DO capabilities are there
or earlier. -/
theorem DoCalls.append {log rest : Calls} (h : DoCalls J log) (hrest : ∀ e ∈ rest, OtherCall e.1) :
    DoCalls J (log ++ rest) := by
  intro asked site env capability payload reply rest' heq hdo
  rcases List.append_eq_append_iff.mp heq with ⟨more, -, hmore⟩ | ⟨more, hlog, hmore⟩
  · exact absurd hdo (no_do_of_other hrest hmore)
  · cases more with
    | nil =>
      exact absurd hdo (no_do_of_other hrest (hmore.symm.trans (List.nil_append _).symm))
    | cons e more =>
      obtain ⟨rfl, -⟩ := List.cons.inj hmore
      exact h asked site env capability payload reply more hlog hdo

theorem DoCalls.snoc (_ : ActCache) (log : Calls) (c : Call) (r : c.Reply) (hc : OtherCall c)
    (h : DoCalls J log) : DoCalls J (log ++ [⟨c, r⟩]) :=
  h.append (by simpa using hc)

/-- The one actuation at the end of a log. -/
theorem DoCalls.last {asked : Calls} {site : Site} {env : Environment} {capability : Capability}
    {payload : Payload} {reply : Except ProviderError Payload} (hasked : ∀ e ∈ asked, OtherCall e.1)
    (hJ : J asked env capability payload) :
    DoCalls J (asked ++ [⟨.actuate site env capability payload, reply⟩]) := by
  intro asked' site' env' capability' payload' reply' rest heq hdo
  rcases List.eq_nil_or_concat rest with rfl | ⟨rest, e, rfl⟩
  · obtain ⟨rfl, he⟩ := List.append_inj' heq rfl
    cases (List.cons.inj he).1
    exact hJ
  · have heq : asked = asked' ++ ⟨.actuate site' env' capability' payload', reply'⟩ :: rest := by
      refine (List.append_inj' (heq.trans ?_) (rfl : [_].length = [e].length)).1
      simp
    exact absurd hdo (no_do_of_other hasked heq)

/-- `act`, on the intent of an admitted request. -/
theorem post_act_granted {A : (c : Call) → c.Reply → Prop} (hC : rt.canon.Total)
    {request : BrokerRequest} {moment : ℤ} {w : World Λ}
    (hadmitted : (admitExecution request.action request.prepared request.grant
      request.currentRevision moment).admitted = true) :
    post (S := kernelSig Λ) A (fun _ _ log => DoCalls (Granted rt w request moment) log)
      (act rt request.intent) w [] := by
  have hother : ∀ {calls : Calls}, (∀ e ∈ calls, Gate e.1) → ∀ e ∈ calls, OtherCall e.1 :=
    fun h e he => otherCall_of_gate (h e he)
  refine post_act_cases hC (fun e calls h => DoCalls.of_other (hother h.gates))
    (fun _ _ _ _ _ => DoCalls.of_other (by simp)) fun st d calls receipt result cache hst _ h => ?_
  have hdo : DoCalls (Granted rt w request moment) calls := by
    rcases h.actuates with hquiet | ⟨asked, rest, _, capability, authority, r, rfl, hrest, -, -, hact⟩
    · exact DoCalls.of_other (hother hquiet)
    · obtain ⟨_, -, hnamed⟩ := hact.declared
      have hiri := capabilityNamed_iri hnamed
      have hlast : DoCalls (Granted rt w request moment)
          (asked ++ [actuated request.intent st capability r]) := by
        refine DoCalls.last (hother hact.gates) ⟨hadmitted, ?_,
          hiri.trans (admissionClosed_of_admitted hadmitted).capability.symm, rfl, hact.permitted,
          fun hrequired => ⟨authority, hact.admitted, ?_⟩⟩
        · rw [← BrokerRequest.intent_episodeId, hst]
          rfl
        · rw [hiri]
          exact (hact.authorized hrequired).2
      simpa using hlast.append (hother hrest)
  exact (post_actuationExit_iff h.receipt_eq).mpr ⟨fun _ _ => hdo, fun _ _ => hdo⟩

/-- A call that acts for a production runtime is an execution. -/
theorem request?_of_intent? {C : Canon} {op : CrownOp C} {intent : ActuationIntent}
    (h : op.intent? .production = some intent) :
    ∃ request moment, op.request? = some (request, moment) ∧ request.intent = intent := by
  cases op with
  | kernel op => cases op <;> simp [CrownOp.intent?] at h
  | reconcile place expected => simp [CrownOp.intent?] at h
  | execute request moment => exact ⟨request, moment, rfl, Option.some.inj h⟩
  | executeCut request moment => exact ⟨request.brokerRequest, moment, rfl, Option.some.inj h⟩

end Granted

/-- A production runtime actuates a DO capability inside an execution only, whose grant is
admitted for the episode, the capability and the payload, with the scope and the authority
resolver in favour. -/
theorem production_do_granted (rt : Runtime Λ) (hC : rt.canon.Total) (ω : Oracle (kernelSig Λ))
    (ops : List (CrownOp rt.canon)) (s : CrownState Λ) :
    ∀ pre op post, ops = pre ++ op :: post →
      let before := s.run rt .production ω pre
      DoCalls (fun asked env capability payload => ∃ request moment,
          op.request? = some (request, moment) ∧
            Granted rt before.world request moment asked env capability payload)
        (before.call rt .production ω op).2.2 := by
  intro pre op post _ before
  refine before.call_of_post (Q := fun _ _ log => DoCalls _ log) ?_
  have hnone : DoCalls (fun asked env capability payload => ∃ request moment,
      op.request? = some (request, moment) ∧
        Granted rt before.world request moment asked env capability payload) [] :=
    DoCalls.of_other (by simp)
  cases hop : op.intent? .production with
  | none => exact keeps_indexed (I := fun _ => DoCalls _) DoCalls.snoc _ hop _ [] hnone
  | some intent =>
    refine post_acting (I := fun _ => DoCalls _) DoCalls.snoc hop (fun _ _ _ h => h)
      (E := fun _ _ => DoCalls _) (fun _ _ _ h => h) hnone fun hadmitted => ?_
    obtain ⟨request, moment, hrequest, rfl⟩ := request?_of_intent? hop
    refine post_mono (fun r w log h => ?_) _ (post_act_granted hC (hadmitted request moment hrequest))
    have hgranted := h.mono fun asked env capability payload hJ =>
      (⟨request, moment, hrequest, hJ⟩ : ∃ request moment, op.request? = some (request, moment) ∧
        Granted rt before.world request moment asked env capability payload)
    exact ⟨fun _ _ => hgranted, fun _ _ => hgranted⟩

/-! ## Keys are consumed -/

/-- An actuation by `act` under an episode and a key. -/
def Call.actsUnder (key : String × String) : Call → Bool
  | .actuate (.act episodeId k) _ _ _ => (episodeId, k) == key
  | _ => false

/-- How often `act` actuated under an episode and a key. -/
def actsUnder (key : String × String) (log : Calls) : ℕ := log.countP fun e => e.1.actsUnder key

section Keys

variable {rt} {A : (c : Call) → c.Reply → Prop} {key : String × String} {w : World Λ}
  {intent : ActuationIntent}

@[simp] theorem actsUnder_append (log more : Calls) :
    actsUnder key (log ++ more) = actsUnder key log + actsUnder key more :=
  List.countP_append

theorem actsUnder_of_other {c : Call} (h : OtherCall c) : c.actsUnder key = false := by
  cases c with
  | actuate site env capability payload =>
    cases site with
    | act episodeId k => exact absurd h id
    | _ => rfl
  | _ => rfl

theorem actsUnder_eq_zero {log : Calls} (h : ∀ e ∈ log, Gate e.1) : actsUnder key log = 0 :=
  List.countP_eq_zero.mpr fun e he => by
    rw [actsUnder_of_other (otherCall_of_gate (h e he))]
    exact Bool.false_ne_true

theorem actsUnder_snoc {log : Calls} {c : Call} {r : c.Reply} (hc : OtherCall c) :
    actsUnder key (log ++ [⟨c, r⟩]) = actsUnder key log := by
  simp [actsUnder, actsUnder_of_other hc]

theorem actsUnder_actuated (intent : ActuationIntent) {asked rest : Calls} (st : EpisodeState)
    (capability : Capability) (r : Except ProviderError Payload) (hasked : ∀ e ∈ asked, Gate e.1) (hrest : ∀ e ∈ rest, Gate e.1) :
    actsUnder key (asked ++ actuated intent st capability r :: rest) =
      if actKey intent = key then 1 else 0 := by
  rw [actsUnder_append, actsUnder_eq_zero hasked, Nat.zero_add]
  have hrest : actsUnder key rest = 0 := actsUnder_eq_zero hrest
  unfold actsUnder at hrest ⊢
  rw [List.countP_cons, hrest]
  by_cases hkey : actKey intent = key
  · simp [actuated, Call.actsUnder, ← hkey, actKey]
  · have hne : ((intent.episodeId, intent.idempotencyKey) == key) = false := beq_false_of_ne hkey
    simp [actuated, Call.actsUnder, hkey, hne]

/-- A call that exits with a result to cache found its key unused. -/
theorem ActEnds.unused {st : EpisodeState} {intentDigest : String} {calls : Calls} {receipt : Receipt}
    {result : Receipt → ActuationResult}
    (h : ActEnds rt intent st w intentDigest calls receipt result true) :
    w.actuationIdempotency (actKey intent) = none := by
  cases h <;> assumption

/-- A call under a key that is cached actuates nothing under it, and the cache stays. -/
theorem post_act_cached (hC : rt.canon.Total) {entry : ActuationRecord}
    (hentry : w.actuationIdempotency key = some entry) :
    post (S := kernelSig Λ) A (fun _ (w : World Λ) log => actsUnder key log = 0 ∧
      w.actuationIdempotency key = some entry) (act rt intent) w [] := by
  have hother : w.actuationIdempotency (actKey intent) = none → actKey intent ≠ key := by
    rintro hnew rfl
    rw [hnew] at hentry
    cases hentry
  refine post_act_cases hC (fun e calls h => ⟨actsUnder_eq_zero h.gates, hentry⟩)
    (fun _ _ _ _ _ => ⟨rfl, hentry⟩) fun st d calls receipt result cache _ _ h => ?_
  have hcalls : actsUnder key calls = 0 := by
    rcases h.actuates with hquiet | ⟨asked, rest, _, _, _, r, rfl, hrest, hnew, -, hgates⟩
    · exact actsUnder_eq_zero hquiet
    · rw [actsUnder_actuated intent st _ r hgates.gates hrest, if_neg (hother hnew)]
  refine (post_actuationExit_iff h.receipt_eq).mpr ⟨fun _ _ => ⟨hcalls, hentry⟩, fun L _ => ⟨hcalls, ?_⟩⟩
  cases cache with
  | false => exact hentry
  | true => exact (Function.update_of_ne (hother h.unused).symm _ _).trans hentry

/-- Under the key there is at most one actuation, and then the intent is cached. -/
def Consumes (rt : Runtime Λ) (intent : ActuationIntent) (key : String × String) (cache : ActCache)
    (log : Calls) : Prop :=
  actsUnder key log ≤ 1 ∧ (actsUnder key log = 1 → actKey intent = key ∧
    ∃ entry, cache key = some entry ∧ rt.canon.digest intent.modelDump = .ok entry.intentDigest)

/-- Under the key there is at most one actuation, and then the ledger raised. -/
def LosesReceipt (key : String × String) (e : Exc) (log : Calls) : Prop :=
  actsUnder key log ≤ 1 ∧ (actsUnder key log = 1 → ∃ x, e = .ledger x)

theorem Consumes.snoc (cache : ActCache) (log : Calls) (c : Call) (r : c.Reply) (hc : OtherCall c)
    (h : Consumes rt intent key cache log) : Consumes rt intent key cache (log ++ [⟨c, r⟩]) := by
  unfold Consumes at h ⊢
  rwa [actsUnder_snoc hc]

theorem Consumes.of_none {cache : ActCache} {log : Calls} (h : actsUnder key log = 0) :
    Consumes rt intent key cache log :=
  ⟨by omega, fun hone => by omega⟩

theorem LosesReceipt.of_none {e : Exc} {log : Calls} (h : actsUnder key log = 0) :
    LosesReceipt key e log :=
  ⟨by omega, fun hone => by omega⟩

/-- A call actuates at most once under a key; it caches its intent then, unless the ledger
refuses the receipt. -/
theorem post_act_consumes (hC : rt.canon.Total) :
    post (S := kernelSig Λ) A (fun r (w : World Λ) log =>
      (∀ result, r = .ok result → Consumes rt intent key w.actuationIdempotency log) ∧
        ∀ e, r = .error e → LosesReceipt key e log) (act rt intent) w [] := by
  refine post_act_cases hC
    (fun e calls h => ⟨fun _ hr => (by cases hr), fun _ _ => .of_none (actsUnder_eq_zero h.gates)⟩)
    (fun _ _ _ _ _ => ⟨fun _ _ => .of_none rfl, fun _ hr => by cases hr⟩)
    fun st d calls receipt result cache _ hd h => ?_
  refine (post_actuationExit_iff h.receipt_eq).mpr
    ⟨fun x _ => ⟨fun _ hr => (by cases hr), fun e hr => ?_⟩,
      fun L _ => ⟨fun _ _ => ?_, fun _ hr => by cases hr⟩⟩
  · cases hr
    refine ⟨?_, fun _ => ⟨x, rfl⟩⟩
    rcases h.actuates with hgates | ⟨asked, rest, _, capability, _, r, rfl, hrest, -, -, hgates⟩
    · simp [actsUnder_eq_zero hgates]
    · rw [List.nil_append, actsUnder_actuated intent st capability r hgates.gates hrest]
      split <;> omega
  · rcases h.actuates with hgates | ⟨asked, rest, _, capability, _, r, rfl, hrest, -, rfl, hgates⟩
    · exact .of_none (actsUnder_eq_zero hgates)
    · unfold Consumes
      rw [List.nil_append, actsUnder_actuated intent st capability r hgates.gates hrest]
      refine ⟨by split <;> omega, fun hone => ?_⟩
      obtain rfl : actKey intent = key := by
        by_contra hne
        simp [hne] at hone
      exact ⟨rfl, _, Function.update_self .., hd⟩

/-- A call of a client under a key that is cached. -/
theorem call_cached (hC : rt.canon.Total) (cls : RuntimeClass) (ω : Oracle (kernelSig Λ))
    {s : CrownState Λ} (op : CrownOp rt.canon) {entry : ActuationRecord}
    (hentry : s.world.actuationIdempotency key = some entry) :
    actsUnder key (s.call rt cls ω op).2.2 = 0 ∧
      (s.step rt cls ω op).world.actuationIdempotency key = some entry := by
  have hI : ∀ (cache : ActCache) (log : Calls) (c : Call) (r : c.Reply), OtherCall c →
      actsUnder key log = 0 ∧ cache key = some entry →
        actsUnder key (log ++ [⟨c, r⟩]) = 0 ∧ cache key = some entry :=
    fun cache log c r hc h => by rwa [actsUnder_snoc hc]
  refine CrownState.call_of_post (s := s) (Q := fun _ w log => actsUnder key log = 0 ∧
    w.actuationIdempotency key = some entry) ?_
  cases hop : op.intent? cls with
  | none => exact keeps_indexed hI _ hop _ [] ⟨rfl, hentry⟩
  | some intent =>
    refine post_acting hI hop (fun _ _ _ h => h) (E := fun _ w log => actsUnder key log = 0 ∧
      w.actuationIdempotency key = some entry) (fun _ _ _ h => h) ⟨rfl, hentry⟩ fun _ => ?_
    exact post_mono (fun _ _ _ h => ⟨fun _ _ => h, fun _ _ => h⟩) _ (post_act_cached hC hentry)

/-- A call of a client that actuates under a key, once, caches its intent under it, or ends in
an exception of the ledger. -/
theorem call_consumes (hC : rt.canon.Total) (key : String × String) (cls : RuntimeClass)
    (ω : Oracle (kernelSig Λ)) (s : CrownState Λ) (op : CrownOp rt.canon) :
    actsUnder key (s.call rt cls ω op).2.2 = 0 ∨
      (∃ intent, op.intent? cls = some intent ∧
        Consumes rt intent key (s.step rt cls ω op).world.actuationIdempotency
          (s.call rt cls ω op).2.2) ∨
      ∃ e, (s.call rt cls ω op).1 = .error e ∧ LosesReceipt key e (s.call rt cls ω op).2.2 := by
  refine CrownState.call_of_post (s := s) (Q := fun r w log => actsUnder key log = 0 ∨
    (∃ intent, op.intent? cls = some intent ∧ Consumes rt intent key w.actuationIdempotency log) ∨
      ∃ e, r = .error e ∧ LosesReceipt key e log) ?_
  cases hop : op.intent? cls with
  | none =>
    have hI : ∀ (cache : ActCache) (log : Calls) (c : Call) (r : c.Reply), OtherCall c →
        actsUnder key log = 0 → actsUnder key (log ++ [⟨c, r⟩]) = 0 :=
      fun _ _ _ _ hc h => by rwa [actsUnder_snoc hc]
    exact post_mono (fun _ _ _ h => Or.inl h) _
      (keeps_indexed (I := fun _ log => actsUnder key log = 0) hI _ hop _ [] rfl)
  | some intent =>
    exact post_acting Consumes.snoc hop (fun _ _ _ h => Or.inr (Or.inl ⟨intent, rfl, h⟩))
      (E := fun e _ log => LosesReceipt key e log) (fun e _ _ h => Or.inr (Or.inr ⟨e, rfl, h⟩))
      (.of_none rfl) fun _ => post_act_consumes hC

/-- Runs under a key that is cached. -/
theorem run_cached {cls : RuntimeClass} {ω : Oracle (kernelSig Λ)} {s : CrownState Λ}
    (hC : rt.canon.Total) (ops : List (CrownOp rt.canon)) {entry : ActuationRecord}
    (hentry : s.world.actuationIdempotency key = some entry) :
    (s.run rt cls ω ops).world.actuationIdempotency key = some entry ∧
      actsUnder key (s.run rt cls ω ops).log = actsUnder key s.log := by
  refine CrownState.run_induction (P := fun s' => s'.world.actuationIdempotency key = some entry ∧
    actsUnder key s'.log = actsUnder key s.log) (fun s' op h => ?_) ops ⟨hentry, rfl⟩
  obtain ⟨hnone, hstays⟩ := call_cached hC cls ω op h.1
  refine ⟨hstays, ?_⟩
  rw [CrownState.step, actsUnder_append, hnone]
  exact h.2

/-- No call ends in an exception of the ledger. -/
def LedgerAccepts (cls : RuntimeClass) (ω : Oracle (kernelSig Λ)) (s : CrownState Λ)
    (ops : List (CrownOp rt.canon)) : Prop :=
  ∀ pre op post, ops = pre ++ op :: post →
    ∀ e, ((s.run rt cls ω pre).call rt cls ω op).1 ≠ .error (.ledger e)

/-- A run whose receipts the ledger accepts actuates at most once under a key. -/
theorem run_acts_once {cls : RuntimeClass} {ω : Oracle (kernelSig Λ)} (hC : rt.canon.Total) :
    ∀ (ops : List (CrownOp rt.canon)) (s : CrownState Λ), LedgerAccepts cls ω s ops →
      actsUnder key (s.run rt cls ω ops).log ≤ actsUnder key s.log + 1
  | [], s, _ => by simp [CrownState.run]
  | op :: ops, s, haccepts => by
    have hlog : actsUnder key (s.step rt cls ω op).log =
        actsUnder key s.log + actsUnder key (s.call rt cls ω op).2.2 := actsUnder_append _ _
    rw [CrownState.run_cons]
    have hrest := run_acts_once hC ops (s.step rt cls ω op) fun pre op' post he =>
      haccepts (op :: pre) op' post (by rw [he, List.cons_append])
    rcases call_consumes hC key cls ω s op with
      hnone | ⟨intent, -, hone, hcached⟩ | ⟨e, he, hone, hlost⟩
    · omega
    · by_cases hacts : actsUnder key (s.call rt cls ω op).2.2 = 1
      · obtain ⟨-, entry, hentry, -⟩ := hcached hacts
        rw [(run_cached hC ops hentry).2]
        omega
      · omega
    · by_cases hacts : actsUnder key (s.call rt cls ω op).2.2 = 1
      · obtain ⟨x, rfl⟩ := hlost hacts
        exact absurd he (haccepts [] op ops rfl x)
      · omega

/-- What an execution returns, the last receipt apart, is what `brokerExecute` returns. -/
theorem post_request {cls : RuntimeClass} {returned : List VerifiedTransition}
    {op : CrownOp rt.canon} {request : BrokerRequest} {moment : ℤ}
    (hop : op.request? = some (request, moment)) {P : VerifiedTransition → World Λ → Calls → Prop}
    (hP : ∀ t receipt w L log, P t w log → P { t with receipt } (w.drawn.recorded L receipt) log)
    (h : post (S := kernelSig Λ) A (fun r w log => ∀ t, r = .ok t → P t w log)
      (brokerExecute rt cls request moment) w []) :
    post (S := kernelSig Λ) A (fun r w log => ∀ t, r = .ok (some t) → P t w log)
      (op.program rt cls returned) w [] := by
  cases op with
  | kernel op => simp [CrownOp.request?] at hop
  | reconcile place expected => simp [CrownOp.request?] at hop
  | execute request' moment' =>
    obtain ⟨rfl, rfl⟩ : request' = request ∧ moment' = moment := by simpa [CrownOp.request?] using hop
    refine (post_map _ _).mpr (post_mono (fun r w log h t ht => ?_) _ h)
    cases r with
    | error e => cases ht
    | ok t' =>
      cases ht
      exact h t rfl
  | executeCut request' moment' =>
    obtain ⟨rfl, rfl⟩ : request'.brokerRequest = request ∧ moment' = moment := by
      simpa [CrownOp.request?] using hop
    refine (post_map _ _).mpr ?_
    rw [combinatorialExecute, post_bind]
    refine post_mono (fun r w log h => ?_) _ h
    cases r with
    | error e => exact fun t ht => by cases ht
    | ok t' =>
      rw [post_onOk, post_bind, post_recordNew]
      refine ⟨fun _ _ t ht => (by cases ht), fun L _ t ht => ?_⟩
      cases ht
      exact hP t' _ w L log (h t' rfl)

/-- A request under a key that is cached for another intent is refused. -/
theorem post_execute_conflict (hC : rt.canon.Total) {cls : RuntimeClass} {request : BrokerRequest}
    {moment : ℤ} {entry : ActuationRecord}
    (hentry : w.actuationIdempotency (actKey request.intent) = some entry)
    (hother : rt.canon.digest request.intent.modelDump ≠ .ok entry.intentDigest) :
    post (S := kernelSig Λ) A (fun r _ _ => ∀ t, r = .ok t →
      t.standing = .refused ∧ t.actuation.accepted = false)
      (brokerExecute rt cls request moment) w [] := by
  refine post_brokerExecute (fun reason _ => ?_) (fun _ h => by cases h) fun _ _ => ?_
  · rw [refuseAdmission, post_bind, post_recordNew]
    refine ⟨fun _ _ _ h => (by cases h), fun L _ t h => ?_⟩
    cases h
    exact ⟨rfl, rfl⟩
  · rw [post_bind]
    refine post_act_cases hC (fun e calls _ t h => by cases h)
      (fun st entry' _ hentry' hd => ?_) fun st d calls receipt result cache _ hd h => ?_
    · obtain rfl : entry = entry' := Option.some.inj (hentry.symm.trans hentry')
      exact absurd hd hother
    · refine (post_actuationExit_iff h.receipt_eq).mpr ⟨fun _ _ _ h => (by cases h), fun L _ => ?_⟩
      have hused : w.actuationIdempotency (actKey request.intent) ≠ none := by simp [hentry]
      cases h with
      | @conflict _ before _ _ _ _ _ hreason hreceipt =>
        have hcertain : possibleUnacknowledgedEffect (refusedWith before (w.stamps rt receipt)) =
            false := by
          have hreason : (w.stamps rt receipt).reason = some "IDEMPOTENCY_KEY_CONFLICT" := hreason
          have hstamped := hreceipt.stamps rt w
          simp [possibleUnacknowledgedEffect, refusedWith, worldChanged, hstamped.pre, hstamped.post,
            hreason]
        refine post_mono (fun r _ _ h t ht => ?_) _ (post_settleExecution_refused rfl)
        obtain ⟨hactuation, hstanding⟩ := h t ht
        rw [hcertain] at hstanding
        exact ⟨hstanding.trans (hreceipt.stamps rt w).standing, by rw [hactuation]; rfl⟩
      | refused hnew => exact absurd hnew hused
      | failed hnew => exact absurd hnew hused
      | acted hnew => exact absurd hnew hused

end Keys

mutual

/-- `_partial_match` : the paths at which the observed value does not match. -/
def partialMatch (observed : Value) (path : String) : Value → List String
  | .dict items =>
    match observed with
    | .dict observed => partialMatchItems observed path items
    | _ => [if path = "" then "<root>" else path]
  | expected => if observed.pyEq expected then [] else [if path = "" then "<root>" else path]

def partialMatchItems (observed : Payload) (path : String) : Payload → List String
  | [] => []
  | (key, value) :: rest =>
    let childPath := if path = "" then key else path ++ "." ++ key
    (match observed.lookup key with
    | none => [childPath]
    | some child => partialMatch child childPath value) ++ partialMatchItems observed path rest

end

/-- `DictSubsetVerifier.judge`. -/
def dictSubsetJudge (expected observed : Payload) : Bool × String :=
  let mismatched := (partialMatch (.dict observed) "" (.dict expected)).insertionSort (· ≤ ·)
  if mismatched = [] then (true, "VERIFIED:SUBSET_MATCH")
  else (false, "VERIFY_MISMATCH:" ++ String.intercalate "," mismatched)

/-! ### Alive -/

/-- A cached result that is not accepted does not stand alive. -/
def CacheSettled (cache : ActCache) : Prop :=
  ∀ key entry, cache key = some entry → entry.result.accepted = false →
    entry.result.standing ≠ .alive

/-- Calls that end with a verification of an environment against an expectation : the state
looked at last meets it. -/
def EndsVerified (rt : Runtime Λ) (st : EpisodeState) (expected : Payload) (calls : Calls) : Prop :=
  ∃ asked reply r observation,
    calls = asked ++ [⟨.verify st.environment expected, reply⟩, ⟨.observe st.environment, r⟩] ∧
      look rt st r = .ok observation ∧ (rt.judge expected observation.state).1 = true

section CacheSettled

variable {rt} {A : (c : Call) → c.Reply → Prop} {w : World Λ}

/-- A result that is not accepted stands as its receipt, which is not alive. -/
theorem ActEnds.standing {intent : ActuationIntent} {st : EpisodeState} {intentDigest : String}
    {calls : Calls} {receipt : Receipt} {result : Receipt → ActuationResult} {cache : Bool}
    (h : ActEnds rt intent st w intentDigest calls receipt result cache) {r : Receipt}
    (hr : r.standing = receipt.standing) (hrefused : (result r).accepted = false) :
    (result r).standing ≠ .alive := by
  cases h with
  | conflict _ _ _ _ hreceipt => simp [refusedWith, hr, hreceipt.standing]
  | refused _ _ hstanding hreceipt =>
    rintro halive
    have : receipt.standing = .alive := hr.symm.trans halive
    rw [hreceipt.standing] at this
    subst this
    simp at hstanding
  | failed _ _ _ _ _ hreceipt => simp [refusedWith, hr, hreceipt.standing]
  | acted => exact absurd hrefused (by simp [actedWith])

theorem post_act_settled (hC : rt.canon.Total) {intent : ActuationIntent} {log : Calls}
    (hw : CacheSettled w.actuationIdempotency) :
    post (S := kernelSig Λ) A (fun r (w' : World Λ) _ => CacheSettled w'.actuationIdempotency ∧
        w'.episodes = w.episodes ∧
          ∀ result, r = .ok result → result.accepted = false → result.standing ≠ .alive)
      (act rt intent) w log := by
  refine post_act_cases hC (fun e calls _ => ⟨hw, rfl, fun _ h => by cases h⟩)
    (fun st entry _ hentry _ => ⟨hw, rfl, fun result h hrefused => ?_⟩)
    fun st d calls receipt result cache _ _ h => ?_
  · cases h
    exact hw _ entry hentry hrefused
  · have hstanding : (result (w.stamps rt receipt)).accepted = false →
        (result (w.stamps rt receipt)).standing ≠ .alive := h.standing rfl
    refine (post_actuationExit_iff h.receipt_eq).mpr
      ⟨fun _ _ => ⟨hw, rfl, fun _ h => by cases h⟩, fun L _ => ⟨?_, ?_, fun _ hr => ?_⟩⟩
    · cases cache with
      | false => exact hw
      | true =>
        intro key entry hentry hrefused
        rw [World.exited_actuationIdempotency] at hentry
        by_cases hkey : key = actKey intent
        · subst hkey
          rw [Function.update_self] at hentry
          obtain rfl := Option.some.inj hentry
          exact hstanding hrefused
        · rw [Function.update_of_ne hkey] at hentry
          exact hw key entry hentry hrefused
    · cases cache <;> rfl
    · cases hr
      exact hstanding

/-- The execution of an accepted result verifies it : what stands alive met the expectation. -/
theorem post_settleExecution_accepted {request : BrokerRequest} {actuation : ActuationResult}
    (haccepted : actuation.accepted = true) {log : Calls} :
    post (S := kernelSig Λ) A (fun r _ log => ∀ t, r = .ok t → t.standing = .alive →
        ∃ st, w.episodes request.prepared.episodeId = some st ∧ EndsVerified rt st request.expected log)
      (settleExecution rt request actuation) w log := by
  rw [settleExecution, afterAct, if_neg (by simp [haccepted]), prog_bind_assoc, post_bind]
  refine post_verify (fun _ _ _ _ h => by cases h)
    fun st providerPassed observed r observation stateDigest hst hlook _ => ?_
  refine post_verifyRest (fun _ _ _ h => by cases h) fun result w' hpassed => ?_
  rw [post_onOk, post_bind, post_bind, post_recordNew]
  refine ⟨fun _ _ _ h => (by cases h), fun L _ => ?_⟩
  rw [post_onOk, post_pure, post_onOk, bindTransition, post_bind, post_recordNew]
  refine ⟨fun _ _ _ h => (by cases h), fun L' _ t h halive => ?_⟩
  cases h
  refine ⟨st, hst, log, _, r, observation, rfl, hlook, hpassed ▸ ?_⟩
  by_contra hfailed
  simp [hfailed] at halive

/-- What stands alive at the end of an execution was verified at its end. -/
theorem post_brokerExecute_alive (hC : rt.canon.Total) {cls : RuntimeClass} {request : BrokerRequest}
    {moment : ℤ} (hw : CacheSettled w.actuationIdempotency) :
    post (S := kernelSig Λ) A (fun r _ log => ∀ t, r = .ok t → t.standing = .alive →
        ∃ st, w.episodes request.prepared.episodeId = some st ∧ EndsVerified rt st request.expected log)
      (brokerExecute rt cls request moment) w [] := by
  refine post_brokerExecute (fun reason _ => ?_) (fun _ h => by cases h) fun _ _ => ?_
  · rw [refuseAdmission, post_bind, post_recordNew]
    refine ⟨fun _ _ _ h => (by cases h), fun L _ t h halive => ?_⟩
    cases h
    cases halive
  · rw [post_bind]
    refine post_mono (fun r w' log h => ?_) _ (post_act_settled hC hw)
    obtain ⟨-, hepisodes, hstanding⟩ := h
    cases r with
    | error e => exact fun _ h => by cases h
    | ok actuation =>
      rw [← hepisodes]
      cases haccepted : actuation.accepted with
      | true => exact post_settleExecution_accepted haccepted
      | false =>
        refine post_mono (fun r _ _ h t ht halive => ?_) _ (post_settleExecution_refused haccepted)
        have hstood := (h t ht).2
        split at hstood
        · simp [hstood] at halive
        · exact absurd (hstood.symm.trans halive) (hstanding actuation rfl haccepted)

end CacheSettled

/-- Every execution of a run of a new runtime that returns alive ends with a look at the
environment of its episode, whose state meets the expectation of the request. -/
theorem alive_verified (rt : Runtime Λ) (hC : rt.canon.Total) (cls : RuntimeClass)
    (ω : Oracle (kernelSig Λ)) (ledger : Λ) (ops : List (CrownOp rt.canon)) (op : CrownOp rt.canon) :
    let before := CrownState.run rt cls ω { world := { ledger } } ops
    ∀ request moment t, op.request? = some (request, moment) →
      (before.call rt cls ω op).1 = .ok (some t) → t.standing = .alive →
        ∃ st, before.world.episodes request.prepared.episodeId = some st ∧
          EndsVerified rt st request.expected (before.call rt cls ω op).2.2 := by
  intro before request moment t hrequest ht halive
  have hI : ∀ (cache : ActCache) (log : Calls) (c : Call) (r : c.Reply), OtherCall c →
      CacheSettled cache → CacheSettled cache := fun _ _ _ _ _ h => h
  have hsettled : CacheSettled before.world.actuationIdempotency := by
    refine CrownState.run_induction (P := fun s => CacheSettled s.world.actuationIdempotency)
      (fun s op hs => ?_) ops (by simp [CacheSettled])
    refine s.call_of_post (Q := fun _ w _ => CacheSettled w.actuationIdempotency) ?_
    cases hop : op.intent? cls with
    | none => exact keeps_indexed (I := fun cache _ => CacheSettled cache) hI _ hop _ [] hs
    | some intent =>
      refine post_acting (I := fun cache _ => CacheSettled cache) hI hop (fun _ _ _ h => h)
        (E := fun _ w _ => CacheSettled w.actuationIdempotency) (fun _ _ _ h => h) hs fun _ => ?_
      exact post_mono (fun _ _ _ h => ⟨fun _ _ => h.1, fun _ _ => h.1⟩) _ (post_act_settled hC hs)
  refine before.call_of_post (Q := fun r _ log => ∀ t, r = .ok (some t) → t.standing = .alive →
    ∃ st, before.world.episodes request.prepared.episodeId = some st ∧
      EndsVerified rt st request.expected log) ?_ t ht halive
  exact post_request (P := fun t _ log => t.standing = .alive →
    ∃ st, before.world.episodes request.prepared.episodeId = some st ∧
      EndsVerified rt st request.expected log) hrequest (fun _ _ _ _ _ h => h)
    (post_brokerExecute_alive hC hsettled)

/-! ### Requests to look at -/

/-- A request on the grant of the sample runs, with a payload and a key of its own. -/
def grantedRequest (payload : Payload) (key : String) (hkey : key ≠ "") : BrokerRequest :=
  { sampleRequest sampleSubject with
    prepared := { (sampleRequest sampleSubject).prepared with
      payload
      idempotencyKey := key
      idempotencyKey_ne := hkey } }

/-- A request, the same key with another payload, and another key. -/
def firstRequest : BrokerRequest := grantedRequest [] "k" key_ne

def changedRequest : BrokerRequest := grantedRequest [("x", .int 1)] "k" key_ne

def secondRequest : BrokerRequest := grantedRequest [("x", .int 1)] "l" (by decide)

def crownSample : CrownState MemoryReceiptLedger := { world := twoEpisodesWorld }

theorem production_do_granted_sample :
    acted (crownSample.call sampleRuntime .production sampleOutside (.execute firstRequest 0)).2.2 = 1 ∧
      DoCalls (fun asked env capability payload => ∃ request moment,
          (CrownOp.execute firstRequest 0 : CrownOp sampleRuntime.canon).request? =
              some (request, moment) ∧
            Granted sampleRuntime twoEpisodesWorld request moment asked env capability payload)
        (crownSample.call sampleRuntime .production sampleOutside (.execute firstRequest 0)).2.2 :=
  ⟨by decide +kernel, production_do_granted sampleRuntime Canon.reference_total sampleOutside
    [.execute firstRequest 0] crownSample [] (.execute firstRequest 0) [] rfl⟩

/-- The kernel's own judge. -/
def judgingRuntime : Runtime MemoryReceiptLedger := { sampleRuntime with judge := dictSubsetJudge }

/-- An action that declares what is to be observed, and a request that expects less. -/
def declaringRequest (expected : Payload) : BrokerRequest :=
  { firstRequest with
    action := { sampleAction with
      verification := { sampleAction.verification with expected := [("x", .int 2)] } }
    expected }

/-- An outside whose environments are in the state `x = 1`. -/
def observingOutside (log : KernelLog) : (c : Call) → c.Reply
  | .observe _ => .ok [("x", .int 1)]
  | c => sampleOutside log c

theorem alive_verified_sample :
    let before := CrownState.run judgingRuntime .production observingOutside { world := { ledger := {} } }
      (twoEpisodes.map .kernel)
    ∃ t st, (before.call judgingRuntime .production observingOutside
          (.execute (declaringRequest [("x", .int 1)]) 0)).1 = .ok (some t) ∧
        before.world.episodes "a" = some st ∧
          EndsVerified judgingRuntime st [("x", .int 1)] (before.call judgingRuntime .production
            observingOutside (.execute (declaringRequest [("x", .int 1)]) 0)).2.2 := by
  intro before
  have halive : (before.call judgingRuntime .production observingOutside
      (.execute (declaringRequest [("x", .int 1)]) 0)).1.toOption.map
        (Option.map VerifiedTransition.standing) = some (some .alive) := by decide +kernel
  cases hcall : (before.call judgingRuntime .production observingOutside
      (.execute (declaringRequest [("x", .int 1)]) 0)).1 with
  | error e =>
    rw [hcall] at halive
    cases halive
  | ok t? =>
    rw [hcall] at halive
    obtain ⟨t, rfl, ht⟩ : ∃ t, t? = some t ∧ t.standing = .alive := by
      simpa [Except.toOption] using halive
    obtain ⟨st, hst, hends⟩ := alive_verified judgingRuntime Canon.reference_total .production
      observingOutside {} (twoEpisodes.map .kernel) (.execute (declaringRequest [("x", .int 1)]) 0)
      (declaringRequest [("x", .int 1)]) 0 t rfl hcall ht
    exact ⟨t, st, rfl, hst, hends⟩

/-- The environment is in the state `x = 1`, the action declares `x = 2`, the request expects
nothing : the execution stands alive. -/
theorem alive_undeclared :
    let before := CrownState.run judgingRuntime .production observingOutside { world := { ledger := {} } }
      (twoEpisodes.map .kernel)
    (before.call judgingRuntime .production observingOutside
        (.execute (declaringRequest []) 0)).1.toOption.map (Option.map VerifiedTransition.standing) =
      some (some .alive) ∧
    (judgingRuntime.judge (declaringRequest []).action.verification.expected [("x", .int 1)]).1 =
      false := by
  decide +kernel

end GymAct
