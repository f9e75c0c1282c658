import GymAct.ActTrace
import GymAct.KernelRuns
import GymAct.KernelTasks

/-!
# Receipted calls

What a call of `materialize` or `act` owes its caller : a typed result whose receipt the
ledger took. A cached result owes it too, so the tables have an invariant (`Receipted`)
that every interleaving of operations keeps. Intents are canonical : their models refuse
what RFC 8785 excludes before there is a call (`createEpisode`). For such intents no
canonicalization on the way fails but one of the environment's state, and
`refusals_receipted` says what is left.
-/

namespace GymAct

open Coop Coop.Prog Coop.Discipline

variable {Λ : Type} (rt : Runtime Λ)

/-! ## Appended receipts -/

/-- `receipt` was appended on the way to a ledger. -/
inductive Appended (receipt : Receipt) : Λ → Prop
  | now {L L' : Λ} (h : rt.append L receipt = .ok L') : Appended receipt L'
  | later {L L' : Λ} {next : Receipt} (h : Appended receipt L)
      (hnext : rt.append L next = .ok L') : Appended receipt L'

/-- The receipt of every cached result was appended. -/
structure Receipted (w : World Λ) : Prop where
  acts : ∀ key entry, w.actuationIdempotency key = some entry →
    Appended rt entry.result.receipt w.ledger
  materializations : ∀ key entry, w.materializationIdempotency key = some entry →
    Appended rt entry.result.receipt w.ledger

/-- A state of the tables : where operations on a new `GymAct`, in any interleaving, lead. -/
def RuntimeState (w : World Λ) : Prop :=
  ∃ (L : Λ) (ops : ℕ → Op) (ω : Outside (kernelSig Λ) Outcome) (schedule : List ℕ),
    w = ((concurrent rt ops { ledger := L }).run ω schedule).store.state

section Receipted

variable {rt} {w : World Λ}

theorem Receipted.recorded (h : Receipted rt w) {L : Λ} {receipt : Receipt}
    (happ : rt.append w.ledger receipt = .ok L) : Receipted rt (w.recorded L receipt) :=
  ⟨fun key entry hk => (h.acts key entry hk).later happ,
    fun key entry hk => (h.materializations key entry hk).later happ⟩

theorem Receipted.cacheActuation (h : Receipted rt w) {key : String × String}
    {entry : ActuationRecord} (happ : Appended rt entry.result.receipt w.ledger) :
    Receipted rt (w.cacheActuation key entry) := by
  refine ⟨fun key' entry' hk => ?_, h.materializations⟩
  by_cases hkey : key' = key
  · subst hkey
    obtain rfl : entry = entry' := by simpa [World.cacheActuation] using hk
    exact happ
  · exact h.acts key' entry' (by simpa [World.cacheActuation, hkey] using hk)

theorem Receipted.cacheMaterialization (h : Receipted rt w) {key : String}
    {entry : MaterializationRecord} (happ : Appended rt entry.result.receipt w.ledger) :
    Receipted rt (w.cacheMaterialization key entry) := by
  refine ⟨h.acts, fun key' entry' hk => ?_⟩
  by_cases hkey : key' = key
  · subst hkey
    obtain rfl : entry = entry' := by simpa [World.cacheMaterialization] using hk
    exact happ
  · exact h.materializations key' entry' (by simpa [World.cacheMaterialization, hkey] using hk)

end Receipted

/-! ### In any interleaving -/

section Interleaved

variable {rt} {t : ℕ} {O : Set LockId}

/-- What keeps `Receipted` at its suspensions. -/
abbrev KeepsReceipted (rt : Runtime Λ) (t : ℕ) (O : Set LockId) {α : Type} (p : M Λ α) : Prop :=
  (keeping (kernelSig Λ) Outcome (Receipted rt)).Calm t O (fun _ => True) p

variable (rt t O) in
theorem receiptedLaw :
    KernelLaw rt (fun _ _ => True) (fun _ => True) (fun _ => True)
      fun _ p => KeepsReceipted rt t O p :=
  calm_law (fun e _ => (keeping_event e).inTrue) Stable.true
    (keeping_update fun _ h => ⟨h.acts, h.materializations⟩)
    (fun _ => keeping_update fun _ h => ⟨h.acts, h.materializations⟩)
    fun _ _ _ _ _ _ happ hi _ => ⟨keeping_step (hi.recorded happ), trivial⟩

variable (rt t) in
theorem receiptedLockedLaw (l : LockId) :
    LockedLaw rt (fun _ _ => True) (fun _ => True) (fun _ => True) (fun _ => True)
      (fun _ p => KeepsReceipted rt t ∅ p) l fun _ p => KeepsReceipted rt t {l} p :=
  ⟨receiptedLaw rt t ∅, receiptedLaw rt t {l}, keeping_withLock⟩

/-- Record a receipt, then change the tables by something that owes it. -/
theorem keepsReceipted_stored {β : Type} {receipt : Receipt} {result : Receipt → β}
    {update : Receipt → World Λ → World Λ}
    (hu : ∀ r w, Receipted rt w → Appended rt r w.ledger → Receipted rt (update r w)) :
    KeepsReceipted rt t O (stamp rt receipt >>= fun r => record rt r >>= fun _ =>
      Prog.modify (update r) >>= fun _ => pure (result r)) := by
  intro Os s₀ s hO h _
  have hd : Receipted rt s.state.drawn := ⟨h.inv.acts, h.inv.materializations⟩
  simp only [wp_bind, stamp, record, wp_getState, wp_modify, wp_onOk, wp_pure]
  cases ha : rt.append s.state.ledger
      (receipt.stamped (rt.uuid4 s.state.supply) (rt.now s.state.supply)) with
  | error e =>
    simpa [World.drawn, ha, Except.mapError] using ⟨hO, h.calm (keeping_step hd)⟩
  | ok L =>
    simp only [World.drawn, ha, Except.mapError, wp_lift, wp_onOk]
    exact ⟨rfl, hO, h.calm (keeping_step (hu _ _ (hd.recorded ha) (.now ha))), trivial⟩

theorem keepsReceipted_actuationExit {intent : ActuationIntent} {intentDigest : String}
    {receipt : Receipt} {result : Receipt → ActuationResult} {cache : Bool}
    (hres : ∀ r, (result r).receipt = r) :
    KeepsReceipted rt t O (actuationExit rt intent intentDigest receipt result cache) := by
  rw [actuationExit_eq hres]
  refine keepsReceipted_stored fun r w h happ => ?_
  cases cache
  · exact h
  · exact h.cacheActuation (by simpa [hres] using happ)

theorem keepsReceipted_materializationExit {intent : MaterializationIntent} {intentDigest : String}
    {receipt : Receipt} {result : Receipt → MaterializationResult} {cache : Bool}
    (hres : ∀ r, (result r).receipt = r) :
    KeepsReceipted rt t O (materializationExit rt intent intentDigest receipt result cache) := by
  rw [materializationExit_eq hres]
  refine keepsReceipted_stored fun r w h happ => ?_
  cases cache
  · exact h
  · exact h.cacheMaterialization (by simpa [hres] using happ)

/-- Every operation keeps the invariant. -/
theorem keepsReceipted_program (hC : rt.canon.Total) (op : Op) :
    KeepsReceipted rt t ∅ (op.program rt) := by
  have hlaw := receiptedLaw rt t ∅
  have hK := receiptedLockedLaw rt t
  have hg : ∀ c, Gate c → True := fun _ _ => trivial
  have hcalm : ∀ {O} {f : World Λ → World Λ}, (∀ w, Receipted rt w → Receipted rt (f w)) →
      KeepsReceipted rt t O (Prog.modify f) := fun hf => Calm.modify (keeping_update hf)
  cases op with
  | registerProvider provider =>
    exact (hlaw.registerProvider (fun _ _ => hcalm fun _ h => ⟨h.1, h.2⟩) provider).map _
  | materialize intent =>
    exact ((hK _).materialize_of_exits (fun _ hres => keepsReceipted_materializationExit hres)
      (fun _ _ => hcalm fun _ h => ⟨h.1, h.2⟩) hg (fun _ _ _ _ => trivial)
      fun _ _ => trivial).map _
  | capabilities episodeId => exact (hlaw.capabilities hg episodeId).map _
  | observe episodeId => exact ((hK _).observe hg).map _
  | read episodeId ref payload => exact (hlaw.read hg (fun _ _ _ _ => trivial) ref payload).map _
  | act intent =>
    exact ((hK _).act_of_exits hC hg (fun _ _ _ => trivial)
      fun hx => keepsReceipted_actuationExit hx.receipt_eq).map _
  | verify episodeId expected =>
    exact ((hK _).verify hg (fun _ _ => trivial) (fun _ _ => trivial) expected).map _
  | checkpoint episodeId => exact ((hK _).checkpoint fun _ => trivial).map _
  | restore episodeId saved authorityRef =>
    exact ((hK _).restore hg (fun _ _ => trivial) (fun _ _ => trivial) saved authorityRef).map _
  | teardown episodeId authorityRef =>
    refine Calm.map ((hK _).teardown hg (fun _ _ _ => trivial) fun st before authority => ?_) _
    exact (hK (.episode episodeId)).inner.teardownAdmitted (fun _ => trivial) (fun _ _ _ => trivial)
      (fun _ => hcalm fun _ h => ⟨h.1, h.2⟩) (hcalm fun _ h => ⟨h.1, h.2⟩) authorityRef st before
      authority

theorem RuntimeState.receipted {w : World Λ} (hC : rt.canon.Total) (h : RuntimeState rt w) :
    Receipted rt w := by
  obtain ⟨L, ops, ω, schedule, rfl⟩ := h
  refine keeping_run ⟨fun _ _ hk => ?_, fun _ _ hk => ?_⟩
    (fun t => keepsReceipted_program hC (ops t)) ω schedule
  · exact absurd hk (by simp)
  · exact absurd hk (by simp)

end Interleaved

/-! ## What a call of `materialize` does -/

/-- What `materialize` holds against the input limit. -/
def materializeInput (intent : MaterializationIntent) : Payload :=
  [("scenario", .ofOption intent.scenario), ("config", .dict intent.config)]

/-- What `materialize` asks the authority resolver. -/
def materializeRequest (intent : MaterializationIntent) (episodeId : String) : AuthorityRequest :=
  { episodeId, subjectRef := providerRef intent.provider, operation := .materialize,
    capabilityRef := operationRef "materialize", payload := materializeInput intent,
    authorityRef := intent.authorityRef }

/-- The ways `materialize` raises, the ledger's `append` apart. -/
inductive MaterializeRaises (intent : MaterializationIntent) : Exc → Calls → Prop
  | intent {e : PyError} (h : rt.canon.digest intent.modelDump = .error e) :
      MaterializeRaises intent (.canonicalization e) []
  | input {e : Exc} (h : ensureInput rt (.dict (materializeInput intent)) = .error e)
      (huntyped : ∀ code, e ≠ .boundaryBlocked code) : MaterializeRaises intent e []
  | request {episodeId : String}
      (h : ¬ CanonicalIn rt.canon (materializeRequest intent episodeId).modelDump) :
      MaterializeRaises intent (.valueError "INPUT_NOT_RFC8785_CANONICAL") []
  | authority {episodeId : String} {e : PyError} :
      MaterializeRaises intent (.provider e)
        [⟨.authorize (materializeRequest intent episodeId), .error (.raised e)⟩]

section Materialize

variable {rt} {A : (c : Call) → c.Reply → Prop} {log : Log (kernelSig Λ)}
  {intent : MaterializationIntent}
  {Q : Except Exc MaterializationResult → World Λ → Log (kernelSig Λ) → Prop}

theorem post_materializationExit_iff {w : World Λ} {intentDigest : String} {receipt : Receipt}
    {result : Receipt → MaterializationResult} {cache : Bool} (hres : ∀ r, (result r).receipt = r) :
    post A Q (materializationExit rt intent intentDigest receipt result cache) w log ↔
      (∀ e, rt.append w.ledger (w.stamps rt receipt) = .error e →
        Q (.error (.ledger e)) w.drawn log) ∧
      ∀ L, rt.append w.ledger (w.stamps rt receipt) = .ok L →
        Q (.ok (result (w.stamps rt receipt)))
          (let w' := w.drawn.recorded L (w.stamps rt receipt)
           if cache then w'.cacheMaterialization intent.idempotencyKey
             ⟨intentDigest, result (w.stamps rt receipt)⟩ else w') log := by
  rw [materializationExit_eq hres, post_bind, post_stamp, post_onOk, post_bind, post_record]
  exact Iff.rfl

/-- After the authority resolver every way leads to a receipt. -/
theorem post_materializeDecided (hC : rt.canon.Total) {w : World Λ}
    {intentDigest episodeId : String} {authority : AuthorityDecision} {receipt : Receipt}
    (hexit : ∀ w' calls receipt result cache, (∀ r, (result r).receipt = r) →
      post A Q (materializationExit rt intent intentDigest receipt result cache) w'
        (log ++ calls)) (calls : Calls) :
    post A Q (if authority.admitted then
        materializeAdmitted rt intent intentDigest episodeId authority
      else materializationRefusal rt intent intentDigest receipt) w (log ++ calls) := by
  split
  case isFalse => exact hexit _ _ _ _ _ fun _ => rfl
  rw [materializeAdmitted, post_bind, post_attempt, kernel_post_bounded]
  intro r _
  rw [post_onOk, List.append_assoc]
  cases settle (.boundaryBlocked "MATERIALIZATION_TIMEOUT") r with
  | error exc =>
    obtain ⟨d, hd⟩ := errorDigest_eq hC exc
    dsimp only
    rw [hd, prog_pure_bind]
    exact hexit _ _ _ _ _ fun _ => rfl
  | ok env =>
    dsimp only
    rw [admitEnvironment, post_bind, post_attempt]
    refine (gated_environmentAdmission rt (fun _ => trivial) (fun _ => trivial) env).post
      fun x more (_ : ∀ e ∈ more, Gate e.1) hx => ?_
    rw [post_onOk, List.append_assoc]
    cases x with
    | error exc =>
      obtain ⟨d, hd⟩ := errorDigest_eq hC exc
      simp only [post_bind, post_attempt, post_onOk, hd, post_pure]
      intro r' _
      rw [List.append_assoc]
      exact hexit _ _ _ _ _ fun _ => rfl
    | ok v =>
      -- a state within the limits has a digest
      obtain ⟨d, hd⟩ := digest_of_ensureState (hx v rfl)
      simp only [registerEpisode, post_bind, post_modify, post_onOk, digest, hd, Except.mapError,
        post_lift]
      exact hexit _ _ _ _ _ fun _ => rfl

/-- A call of `materialize`, whatever the outside answers. -/
theorem post_materialize_cases (hC : rt.canon.Total) {w : World Λ}
    (hraise : ∀ e w' calls, MaterializeRaises rt intent e calls → Q (.error e) w' (log ++ calls))
    (hcached : ∀ entry, w.materializationIdempotency intent.idempotencyKey = some entry →
      rt.canon.digest intent.modelDump = .ok entry.intentDigest → Q (.ok entry.result) w log)
    (hexit : ∀ w' intentDigest calls receipt result cache, (∀ r, (result r).receipt = r) →
      post A Q (materializationExit rt intent intentDigest receipt result cache) w'
        (log ++ calls)) :
    post A Q (materialize rt intent) w log := by
  rw [materialize, post_bind, digest, post_lift]
  cases hd : rt.canon.digest intent.modelDump with
  | error e => simpa [Except.mapError] using hraise _ w _ (.intent hd)
  | ok intentDigest =>
    have hexit := fun w' calls receipt result cache =>
      hexit w' intentDigest calls receipt result cache
    -- refused before anything was asked
    have hrefuse : ∀ w' receipt cache,
        post A Q (materializationRefusal rt intent intentDigest receipt cache) w' log :=
      fun w' receipt cache => by
        simpa [materializationRefusal] using hexit w' [] receipt _ cache fun _ => rfl
    simp only [Except.mapError, post_onOk, post_withLock, materializeLocked, post_bind,
      post_getState]
    cases hk : w.materializationIdempotency intent.idempotencyKey with
    | some entry =>
      dsimp only
      split
      case isTrue he => exact hcached entry hk (he ▸ hd)
      case isFalse => exact hrefuse _ _ _
    | none =>
      simp only [uuid4, post_bind, post_getState, post_onOk, post_modify, post_pure,
        materializeFresh]
      have hinput : ensureInput rt (.dict [("scenario", .ofOption intent.scenario),
          ("config", .dict intent.config)]) = ensureInput rt (.dict (materializeInput intent)) := rfl
      rw [hinput]
      cases hin : ensureInput rt (.dict (materializeInput intent)) with
      | error e =>
        cases e with
        | boundaryBlocked code => exact hrefuse _ _ _
        | _ => simpa using hraise _ w.drawn _ (.input hin (by simp))
      | ok _ =>
        simp only [post_bind, post_getState, post_onOk]
        cases w.drawn.providers intent.provider with
        | none => exact hrefuse _ _ _
        | some provider =>
          dsimp only
          rw [materializeAuthorized, post_bind, post_attempt]
          refine post_authorityDecision (fun _ => ?_) (fun _ hnot => ?_) fun _ _ r _ => ?_
          · rw [post_onOk, ← List.append_nil log]
            exact post_materializeDecided hC hexit []
          · simpa using hraise _ w.drawn _ (.request hnot)
          · rw [post_onOk]
            cases r with
            | ok authority => exact post_materializeDecided hC hexit _
            | error failure =>
              cases failure with
              | timeout => exact hexit _ _ _ _ _ fun _ => rfl
              | raised e => exact hraise _ _ _ .authority

end Materialize

/-! ## Canonical intents -/

/-- What is canonical is refused at a limit for its size only. -/
theorem typed_of_canonicalIn {limit : ℕ} {exceeded notCanonical : String} {v : Value} {e : Exc}
    (hv : CanonicalIn rt.canon v) (h : ensureWithin rt limit exceeded notCanonical v = .error e) :
    e = .boundaryBlocked exceeded := by
  obtain ⟨b, hb⟩ := hv
  simp only [ensureWithin, hb] at h
  split at h
  · cases h; rfl
  · cases h

section Canonical

variable {C : Canon} (hC : C.Exact)

include hC

theorem canonicalIn_iff {v : Value} : CanonicalIn C v ↔ v.isCanonical = true := hC v

theorem canonicalIn_materializeInput {intent : MaterializationIntent}
    (h : CanonicalIn C intent.modelDump) : CanonicalIn C (.dict (materializeInput intent)) := by
  rw [canonicalIn_iff hC] at h ⊢
  simpa [MaterializationIntent.modelDump, materializeInput] using h

theorem canonicalIn_materializeRequest {intent : MaterializationIntent}
    (h : CanonicalIn C intent.modelDump) (episodeId : String) :
    CanonicalIn C (materializeRequest intent episodeId).modelDump := by
  rw [canonicalIn_iff hC] at h ⊢
  simpa [MaterializationIntent.modelDump, materializeRequest, materializeInput,
    AuthorityRequest.modelDump] using h

theorem canonicalIn_payload {intent : ActuationIntent} (h : CanonicalIn C intent.modelDump) :
    CanonicalIn C (.dict intent.payload) := by
  rw [canonicalIn_iff hC] at h ⊢
  simpa [ActuationIntent.modelDump] using h

theorem canonicalIn_actRequest {intent : ActuationIntent} (h : CanonicalIn C intent.modelDump)
    (st : EpisodeState) : CanonicalIn C (actRequest intent st).modelDump := by
  rw [canonicalIn_iff hC] at h ⊢
  simpa [ActuationIntent.modelDump, actRequest, AuthorityRequest.modelDump] using h

end Canonical

/-! ## What the caller gets -/

/-- The authority resolver raised, other than by a timeout. -/
def resolverRaised : (Σ c : Call, c.Reply) → Bool
  | ⟨.authorize _, .error (.raised _)⟩ => true
  | _ => false

/-- `capabilities()` of an environment raised. -/
def capabilitiesRaised : (Σ c : Call, c.Reply) → Bool
  | ⟨.capabilities _, .error _⟩ => true
  | _ => false

/-- A result whose receipt was appended, unless the ledger refused one. -/
def ReceiptReturned {ρ : Type} (receiptOf : ρ → Receipt) (r : Except Exc ρ) (w : World Λ) : Prop :=
  (∃ result, r = .ok result ∧ Appended rt (receiptOf result) w.ledger) ∨
    ∃ receipt e, rt.append w.ledger receipt = .error e ∧ r = .error (.ledger e)

section Calls

variable {rt} {A : (c : Call) → c.Reply → Prop} {w : World Λ} {log : Log (kernelSig Λ)}

/-- A call of `materialize` with a canonical intent. -/
theorem post_materialize_receipted (hC : rt.canon.Exact) (hw : Receipted rt w)
    {intent : MaterializationIntent} (hi : CanonicalIn rt.canon intent.modelDump) :
    post A (fun r w' log' => ∃ calls, log' = log ++ calls ∧
      ((∀ e ∈ calls, resolverRaised e = false) →
        ReceiptReturned rt MaterializationResult.receipt r w')) (materialize rt intent) w log := by
  refine post_materialize_cases hC.total (fun e w' calls hr => ⟨calls, rfl, fun hno => ?_⟩)
    (fun entry hk _ => ⟨[], by simp, fun _ => Or.inl ⟨_, rfl, hw.materializations _ _ hk⟩⟩)
    fun w' intentDigest calls receipt result cache hres => ?_
  · cases hr with
    | intent h =>
      obtain ⟨d, hd⟩ := hi.digest
      exact absurd (hd.symm.trans h) (by simp)
    | input h huntyped =>
      exact absurd (typed_of_canonicalIn rt (canonicalIn_materializeInput hC hi) h) (huntyped _)
    | request h => exact absurd (canonicalIn_materializeRequest hC hi _) h
    | authority => simp [resolverRaised] at hno
  · rw [post_materializationExit_iff hres]
    refine ⟨fun e he => ⟨calls, rfl, fun _ => Or.inr ⟨_, e, he, rfl⟩⟩,
      fun L hL => ⟨calls, rfl, fun _ => Or.inl ⟨_, rfl, ?_⟩⟩⟩
    rw [hres]
    cases cache <;> exact .now hL

/-- A call of `act` with a canonical intent on a live episode : either the first look fails,
or the caller gets a receipt. -/
theorem post_act_receipted (hC : rt.canon.Exact) (hw : Receipted rt w) {intent : ActuationIntent}
    {st : EpisodeState} (hi : CanonicalIn rt.canon intent.modelDump)
    (hst : w.episodes intent.episodeId = some st) :
    post A (fun r w' log' => ∃ calls, log' = log ++ calls ∧
      ((∃ reply e, calls = [⟨.observe st.environment, reply⟩] ∧ look rt st reply = .error e) ∨
        ((∀ e ∈ calls, resolverRaised e = false ∧ capabilitiesRaised e = false) →
          ReceiptReturned rt ActuationResult.receipt r w'))) (act rt intent) w log := by
  refine post_act_cases hC.total (fun e calls hr => ⟨calls, rfl, ?_⟩)
    (fun st entry _ hk _ => ⟨[], by simp, Or.inr fun _ => Or.inl ⟨_, rfl, hw.acts _ _ hk⟩⟩)
    fun st' intentDigest calls receipt result cache _ _ hends => ?_
  · cases hr with
    | unknown h => exact absurd (hst.symm.trans h) (by simp)
    | intent h =>
      obtain ⟨d, hd⟩ := hi.digest
      exact absurd (hd.symm.trans h) (by simp)
    | look hst' h =>
      obtain rfl := Option.some.inj (hst.symm.trans hst')
      exact Or.inl ⟨_, _, rfl, h⟩
    | input h huntyped =>
      exact absurd (typed_of_canonicalIn rt (canonicalIn_payload hC hi) h) (huntyped _)
    | @capabilities _ _ r' _ h =>
      refine Or.inr fun hno => ?_
      cases r' with
      | ok cs => simp [settle] at h
      | error failure => simp [capabilitiesRaised] at hno
    | request hst' _ h => exact absurd (canonicalIn_actRequest hC hi _) h
    | authority => exact Or.inr fun hno => by simp [resolverRaised] at hno
  · rw [post_actuationExit_iff hends.receipt_eq]
    refine ⟨fun e he => ⟨calls, rfl, Or.inr fun _ => Or.inr ⟨_, e, he, rfl⟩⟩,
      fun L hL => ⟨calls, rfl, Or.inr fun _ => Or.inl ⟨_, rfl, ?_⟩⟩⟩
    rw [hends.receipt_eq]
    cases cache <;> exact .now hL

end Calls

/-! ## Construction -/

/-- `create_episode` : construct the intent, which validates itself, and materialize. -/
def createEpisode (provider : String) (scenario : Option String) (config : Payload)
    (authorityRef idempotencyKey : Option String) : M Λ MaterializationResult := do
  let idempotencyKey ← match idempotencyKey with
    | some key => pure key
    | none => uuid4 rt
  let intent : MaterializationIntent := { provider, scenario, config, authorityRef, idempotencyKey }
  match rt.canon.canonicalBytes intent.modelDump with
  | .error _ => raise (.valueError "INPUT_NOT_RFC8785_CANONICAL")
  | .ok _ => materialize rt intent

/-- A config that is not canonical never reaches `materialize`. -/
theorem post_createEpisode_refused {rt : Runtime Λ} {A : (c : Call) → c.Reply → Prop} {w : World Λ}
    {log : Log (kernelSig Λ)} (hC : rt.canon.Exact) {provider : String}
    {scenario authorityRef idempotencyKey : Option String} {config : Payload}
    (hconfig : (Value.dict config).isCanonical = false) :
    post A (fun r (w' : World Λ) log' =>
        r = .error (Exc.valueError "INPUT_NOT_RFC8785_CANONICAL") ∧ w'.ledger = w.ledger ∧ log' = log)
      (createEpisode rt provider scenario config authorityRef idempotencyKey) w log := by
  have hnot : ∀ key, ∃ e, rt.canon.canonicalBytes (MaterializationIntent.modelDump
      { provider, scenario, config, authorityRef, idempotencyKey := key }) = .error e := by
    intro key
    cases hb : rt.canon.canonicalBytes (MaterializationIntent.modelDump
        { provider, scenario, config, authorityRef, idempotencyKey := key }) with
    | error e => exact ⟨e, rfl⟩
    | ok b =>
      have h := (canonicalIn_iff hC).mp ⟨b, hb⟩
      rw [Value.isCanonical_dict] at hconfig
      simp [MaterializationIntent.modelDump, hconfig] at h
  cases idempotencyKey with
  | some key =>
    obtain ⟨e, he⟩ := hnot key
    simp [createEpisode, he]
  | none =>
    obtain ⟨e, he⟩ := hnot (rt.uuid4 w.supply)
    simp [createEpisode, uuid4, he, World.drawn]

/-- One task registers the provider, the next materializes. -/
def sampleTasks : ℕ → Op
  | 0 => .registerProvider ⟨"memory", false⟩
  | _ => .materialize { idempotencyKey := "m" }

end GymAct
