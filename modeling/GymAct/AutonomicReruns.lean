import GymAct.Autonomic
import GymAct.Clients
import GymAct.CrownRuns
import GymAct.KernelMaterialize
import GymAct.Rematerialize
import GymAct.Runs
import GymAct.SessionKernel

/-!
# Running a consequence request again

An `AutonomicController` over the kernel : each call of a run is answered by the kernel's program
of it, where the calls before left the kernel (`rerun`). A run ends with the teardown of its
episode, and the materialization stays in the cache of its key : a second run gets the episode
from there and asks for the capabilities of one that is gone (`rerun_unknown_episode`).

`reruns_answered` : in a sequence of runs each of which finds the episode that is cached for it
registered, or that it was not accepted, no run raises, all stand as the first, and the provider
acts at most once under the key of the request.
-/

namespace GymAct

open Coop Coop.Prog

variable {Λ : Type}

/-! ## What the kernel does for a controller -/

/-- A grant issuer that behaves the same way each time and does not raise. -/
abbrev Issuer :=
  (action : ActionDefinition) → (prepared : PreparedAction) → (admittedObservationRef : String) →
    (authorityRef : Option String) → GrantIssue

/-- The program of a call of a controller on a production runtime, at a moment. -/
def ControllerCall.program (rt : Runtime Λ) (issuer : Issuer) (moment : ℤ) :
    (c : ControllerCall) → M Λ c.Value
  | materialize intent => GymAct.materialize rt intent
  | observe episodeId => GymAct.observe rt episodeId
  | capabilities episodeId => GymAct.capabilities episodeId
  | issue action prepared admittedObservationRef authorityRef =>
    pure (issuer action prepared admittedObservationRef authorityRef)
  | execute request => brokerExecute rt .production request moment
  | teardown episodeId authorityRef => GymAct.teardown rt episodeId authorityRef
  | episodeReceipts episodeId => do
    let w ← getState
    pure (w.receipts episodeId)

/-- An actuation of the provider by `act` under an idempotency key. -/
def Call.keyed (key : String) : Call → Bool
  | .actuate (.act _ k) _ _ _ => k == key
  | _ => false

/-- How often the provider was asked to act under a key. -/
def keyedActs (key : String) (log : Calls) : ℕ := log.countP fun e => e.1.keyed key

section Keyed

variable {rt : Runtime Λ} {key episodeId : String} {A : (c : Call) → c.Reply → Prop}

@[simp] theorem keyedActs_append (log more : Calls) :
    keyedActs key (log ++ more) = keyedActs key log + keyedActs key more := List.countP_append

theorem keyed_of_other {c : Call} (h : OtherCall c) : c.keyed key = false := by
  cases c with
  | actuate site env capability payload =>
    cases site with
    | act episodeId k => exact absurd h id
    | _ => rfl
  | _ => rfl

theorem keyedActs_snoc {log : Calls} {c : Call} {r : c.Reply} (hc : OtherCall c) :
    keyedActs key (log ++ [⟨c, r⟩]) = keyedActs key log := by
  simp [keyedActs, keyed_of_other hc]

/-- Actuations under one key are all of one episode. -/
theorem keyedActs_eq_actsUnder {log : Calls}
    (h : ∀ id, id ≠ episodeId → actsUnder (id, key) log = 0) :
    keyedActs key log = actsUnder (episodeId, key) log := by
  refine List.countP_congr fun e he => ?_
  rcases e with ⟨c, r⟩
  cases c with
  | actuate site env capability payload =>
    cases site with
    | act id k =>
      simp only [Call.keyed, Call.actsUnder, beq_iff_eq, Prod.mk.injEq]
      refine ⟨fun hk => ⟨?_, hk⟩, fun hk => hk.2⟩
      by_contra hne
      have hnone := List.countP_eq_zero.mp (h id hne) _ he
      simp [Call.actsUnder, hk] at hnone
    | _ => simp [Call.keyed, Call.actsUnder]
  | _ => simp [Call.keyed, Call.actsUnder]

/-- What is stored of materializations is as it was, and no episode is new. -/
def Stored (w₀ w : World Λ) : Prop :=
  w.materializationIdempotency = w₀.materializationIdempotency ∧
    ∀ id, w.episodes id = w₀.episodes id ∨ w.episodes id = none

theorem Stored.refl (w : World Λ) : Stored w w := ⟨rfl, fun _ => .inl rfl⟩

theorem Stored.trans {w₀ w₁ w₂ : World Λ} (h : Stored w₀ w₁) (h' : Stored w₁ w₂) : Stored w₀ w₂ := by
  refine ⟨h'.1.trans h.1, fun id => ?_⟩
  rcases h'.2 id with hid | hid
  · rw [hid]
    exact h.2 id
  · exact .inr hid

/-- Keeping what is stored is a law of operations. -/
theorem stored_law {w₀ : World Λ} :
    KernelLaw rt A (fun _ => True) (fun _ => True)
      fun _ p => Keeps A (fun w _ => Stored w₀ w) p where
  ret r := Keeps.lift (A := A) r
  bindE hp hf := hp.bindE hf
  getState := Keeps.getState (A := A)
  leads hp ht := hp.keeps (fun _ _ _ _ _ h => h) ht
  idle := Keeps.modify fun _ _ h => h
  drawn := Keeps.modify fun _ _ h => h
  verified _ := Keeps.modify fun _ _ h => h
  recorded _ hf := by
    intro w log h
    rw [post_bind, post_stamp, post_onOk, post_bind, post_record]
    exact ⟨fun _ _ => h, fun _ _ => hf _ _ _ h⟩

theorem stored_lockedLaw {w₀ : World Λ} (l : LockId) :
    LockedLaw rt A (fun _ => True) (fun _ => True) (fun _ => True)
      (fun _ p => Keeps A (fun w _ => Stored w₀ w) p) l
      fun _ p => Keeps A (fun w _ => Stored w₀ w) p :=
  ⟨stored_law, stored_law, fun h => h.withLock l⟩

theorem keeps_stored_teardown {w₀ : World Λ} (id : String) (authorityRef : Option String) :
    Keeps A (fun w _ => Stored w₀ w) (teardown rt id authorityRef) := by
  refine (stored_lockedLaw _).teardown (fun _ _ => trivial) (fun _ _ _ => trivial)
    fun st before authority => ?_
  refine stored_law.teardownAdmitted (fun _ => trivial) (fun _ _ _ => trivial)
    (fun _ => Keeps.modify fun _ _ h => h) (Keeps.modify fun w _ h => ⟨h.1, fun id' => ?_⟩)
    authorityRef st before authority
  by_cases hid : id' = id
  · subst hid
    exact .inr (Function.update_self ..)
  · have hsame : (w.dropped id).episodes id' = w.episodes id' := Function.update_of_ne hid _ _
    rw [hsame]
    exact h.2 id'

theorem keeps_stored_execute (hC : rt.canon.Total) {w₀ : World Λ} (request : BrokerRequest)
    (moment : ℤ) :
    Keeps A (fun w _ => Stored w₀ w) (brokerExecute rt .production request moment) := by
  have hlaw : KernelLaw rt A (fun _ => True) (fun _ => True)
      fun _ p => Keeps A (fun w _ => Stored w₀ w) p := stored_law
  have hrecord (receipt : Receipt) : Keeps A (fun w _ => Stored w₀ w) (recordNew rt receipt) :=
    hlaw.recordNew trivial
  intro w log h
  refine post_brokerExecute (fun reason _ => ?_) h fun _ _ => ?_
  · exact hlaw.bind (hrecord _) (fun _ => hlaw.pure _) w log h
  · refine hlaw.bind ?_ (fun actuation => ?_) w log h
    · exact (stored_lockedLaw _).act hC (fun _ _ => trivial) (fun _ _ _ => trivial)
        (fun _ => Keeps.modify fun _ _ h => h) fun _ _ => trivial
    · refine hlaw.bind ?_ fun _ => hlaw.bind (hrecord _) fun _ => hlaw.pure _
      unfold afterAct
      split
      · split
        · exact hlaw.bind (hrecord _) fun _ => hlaw.pure _
        · exact hlaw.pure _
      · refine hlaw.bind ?_ fun _ => hlaw.bind (hrecord _) fun _ => hlaw.pure _
        exact (stored_lockedLaw _).verify (fun _ _ => trivial) (fun _ _ => trivial)
          (fun _ _ => trivial) _

/-- Calls other than an execution leave the idempotency index and the count of actuations. -/
theorem exec_otherOp {op : Op} (hop : ∀ intent, op ≠ .act intent) {κ : Oracle (kernelSig Λ)}
    {w : World Λ} {log : Calls} {α : Type} {p : M Λ α} {f : α → Outcome} (hp : op.program rt = f <$> p) :
    (exec κ p w log).2.1.actuationIdempotency = w.actuationIdempotency ∧
      keyedActs key (exec κ p w log).2.2 = keyedActs key log := by
  have hI : ∀ (cache : ActCache) (log' : Calls) (c : Call) (r : c.Reply), OtherCall c →
      cache = w.actuationIdempotency ∧ keyedActs key log' = keyedActs key log →
        cache = w.actuationIdempotency ∧ keyedActs key (log' ++ [⟨c, r⟩]) = keyedActs key log :=
    fun _ _ _ _ hc h => ⟨h.1, (keyedActs_snoc hc).trans h.2⟩
  have hkept := exec_of_post (ω := κ) (fun _ _ => trivial) (op.program rt)
    (keeps_otherOp (A := fun _ _ => True) hI hop w log ⟨rfl, rfl⟩)
  rw [hp, exec_map] at hkept
  exact hkept

/-- An execution that returns acts at most once under the key of its request, which is cached
then; where it was cached already, it does not act. -/
theorem execute_acts (hC : rt.canon.Total) {κ : Oracle (kernelSig Λ)} {w : World Λ} {log : Calls}
    {request : BrokerRequest} {moment : ℤ} {t : VerifiedTransition}
    (ht : (exec κ (brokerExecute rt .production request moment) w log).1 = .ok t) :
    let after := exec κ (brokerExecute rt .production request moment) w log
    let key := request.prepared.idempotencyKey
    (keyedActs key after.2.2 = keyedActs key log ∨ keyedActs key after.2.2 = keyedActs key log + 1 ∧
        after.2.1.actuationIdempotency (actKey request.intent) ≠ none) ∧
      (w.actuationIdempotency (actKey request.intent) ≠ none →
        keyedActs key after.2.2 = keyedActs key log ∧
          after.2.1.actuationIdempotency (actKey request.intent) ≠ none) := by
  intro after key
  let s : CrownState Λ := { world := w, log := log }
  let op : CrownOp rt.canon := .execute request moment
  have hcall : s.call rt .production κ op =
      ((exec (fun l => κ (log ++ l)) (brokerExecute rt .production request moment) w []).1.map some,
        (exec (fun l => κ (log ++ l)) (brokerExecute rt .production request moment) w []).2) :=
    exec_map _ _ _ _ _
  have hshift := exec_shift κ (brokerExecute rt .production request moment) log w []
  rw [List.append_nil] at hshift
  have hlog : after.2.2 = log ++ (s.call rt .production κ op).2.2 := by
    rw [hcall]
    exact congrArg (fun x => x.2.2) hshift
  have hworld : after.2.1 = (s.step rt .production κ op).world := by
    rw [CrownState.step, hcall]
    exact congrArg (fun x => x.2.1) hshift
  have hok : ∀ e, (s.call rt .production κ op).1 ≠ .error e := by
    intro e he
    rw [hcall] at he
    rw [hshift] at ht
    dsimp only at ht he
    rw [ht] at he
    cases he
  -- of one key, and of the others
  have hconsumes (key' : String × String) :
      actsUnder key' (s.call rt .production κ op).2.2 = 0 ∨
        Consumes rt request.intent key' (s.step rt .production κ op).world.actuationIdempotency
          (s.call rt .production κ op).2.2 := by
    rcases call_consumes hC key' .production κ s op with h | ⟨intent, hintent, h⟩ | ⟨e, he, -⟩
    · exact .inl h
    · obtain rfl : request.intent = intent := Option.some.inj hintent
      exact .inr h
    · exact absurd he (hok e)
  have hkeyed : keyedActs key (s.call rt .production κ op).2.2 =
      actsUnder (actKey request.intent) (s.call rt .production κ op).2.2 := by
    refine keyedActs_eq_actsUnder fun id hid => ?_
    rcases hconsumes (id, key) with h | ⟨hone, hcached⟩
    · exact h
    · have hne : actKey request.intent ≠ (id, key) := fun h => hid (congrArg Prod.fst h).symm
      have hnot : actsUnder (id, key) (s.call rt .production κ op).2.2 ≠ 1 :=
        fun h => hne (hcached h).1
      omega
  rw [hlog, hworld, keyedActs_append, hkeyed]
  refine ⟨?_, fun hcached => ?_⟩
  · rcases hconsumes (actKey request.intent) with h | ⟨hone, hentry⟩
    · exact .inl (by rw [h, Nat.add_zero])
    · by_cases hacted : actsUnder (actKey request.intent) (s.call rt .production κ op).2.2 = 1
      · obtain ⟨-, entry, hentry, -⟩ := hentry hacted
        exact .inr ⟨by rw [hacted], by rw [hentry]; exact Option.some_ne_none entry⟩
      · exact .inl (by omega)
  · obtain ⟨entry, hentry⟩ := Option.ne_none_iff_exists'.mp hcached
    obtain ⟨hnone, hstays⟩ := call_cached hC .production κ op (s := s) hentry
    rw [hnone, hstays]
    exact ⟨Nat.add_zero _, Option.some_ne_none entry⟩

end Keyed

namespace AutonomicController

/-! ## A run and what comes after -/

section Rerun

variable (rt : Runtime Λ) (E : ControllerEnv) (request : ConsequenceRequest) (issuer : Issuer)
  (κ : Oracle (kernelSig Λ))

/-- The kernel answers a controller. -/
def serve (moment : ℤ) : Server controllerSig (KernelAt Λ) :=
  fun c k => exec κ (c.program rt issuer moment) k.1 k.2

/-- `run` once more, at a moment : its outcome and its calls, and the kernel after it. -/
def rerun (k : KernelAt Λ) (moment : ℤ) :
    (Except Exc AutonomicOutcome × Log controllerSig) × KernelAt Λ :=
  let ended := execOn (serve rt issuer κ moment) (run E request) () k []
  ((ended.1, ended.2.2.2), ended.2.2.1)

/-- The intent `create_episode` constructs of a request. -/
def intentOf : MaterializationIntent :=
  { provider := request.provider, scenario := request.scenario, config := request.config,
    authorityRef := request.authorityRef, idempotencyKey := request.idempotencyKey ++ ":materialize" }

/-- The configuration and the payload have an encoding, and the payload fits its schema. -/
structure WellPosed : Prop where
  config : (Value.dict request.config).isCanonical = true
  payload : (Value.dict request.payload).isCanonical = true
  schema : E.validate request.payload request.inputSchema = .ok ()

/-- The materialization of the request is cached. -/
def Remembers (w : World Λ) (entry : MaterializationRecord) : Prop :=
  w.materializationIdempotency (intentOf request).idempotencyKey = some entry ∧
    rt.canon.digest (intentOf request).modelDump = .ok entry.intentDigest

/-- What a run needs to find : the cached episode still registered, or else a ledger that takes
the receipt of the materialization. -/
structure Rerunnable (w : World Λ) : Prop where
  opened : ∀ entry, Remembers rt request w entry → entry.result.accepted = true →
    Opened entry.result w
  taken : (∀ entry, ¬ Remembers rt request w entry) → LedgerTakes rt (intentOf request) w

/-- The broker does not raise, and its transition for a request stands the same each time. -/
def BrokerAnswers (stands : BrokerRequest → Standing) (calls : Log controllerSig) : Prop :=
  ∀ brokered r, ⟨.execute brokered, r⟩ ∈ calls → ∃ t, r = .ok t ∧ t.standing = stands brokered

/-- The standing of a run that is attended to the end. -/
def attendedStanding (stands : BrokerRequest → Standing) (m : MaterializationResult)
    (capabilities : List Capability) : Standing :=
  match selectCapability request capabilities, m.episode, m.observation with
  | (some capability, _), some episode, some initial =>
    match planOf E request episode initial capability with
    | .error _ => .blocked
    | .ok (action, prepared) =>
      if E.issuer = false then .refused
      else
        let issue := issuer action prepared ("urn:gymact:observation:" ++ initial.stateDigest)
          request.authorityRef
        match usableGrant issue with
        | none => issue.standing
        | some grant => stands (brokerRequest request action prepared grant)
  | (_, standing, _), _, _ => standing

/-- How a run stands that gets a materialization. -/
def Stands (caps : Environment → List Capability) (stands : BrokerRequest → Standing)
    (m : MaterializationResult) (w : World Λ) (standing : Standing) : Prop :=
  (m.accepted = true → ∀ episode st, m.episode = some episode →
      w.episodes episode.episodeId = some st →
        standing = attendedStanding E request issuer stands m (caps st.environment)) ∧
    (m.accepted = false → standing = m.standing)

/-- How the next run stands, once a materialization is cached. -/
def Settles (caps : Environment → List Capability) (stands : BrokerRequest → Standing)
    (w : World Λ) (standing : Standing) : Prop :=
  ∃ entry, w.materializationIdempotency (intentOf request).idempotencyKey = some entry ∧
    (rt.canon.digest (intentOf request).modelDump = .ok entry.intentDigest →
      Stands E request issuer caps stands entry.result w standing) ∧
    (rt.canon.digest (intentOf request).modelDump ≠ .ok entry.intentDigest → standing = .refused)

/-- Under the key of the request at most one actuation is new, and then it is cached for the
episode of the request. -/
def Spent (n : ℕ) (k : KernelAt Λ) : Prop :=
  keyedActs request.idempotencyKey k.2 ≤ n ∨
    keyedActs request.idempotencyKey k.2 = n + 1 ∧ ∃ entry episode,
      k.1.materializationIdempotency (intentOf request).idempotencyKey = some entry ∧
        entry.result.episode = some episode ∧
          k.1.actuationIdempotency (episode.episodeId, request.idempotencyKey) ≠ none

end Rerun

/-! ### The plan of a well posed request -/

section Plan

variable {E : ControllerEnv} {request : ConsequenceRequest}

theorem materializationIntent_ok (hE : E.canon.Total) (hrequest : WellPosed E request) :
    materializationIntent E request = .ok (intentOf request) := by
  obtain ⟨bytes, hbytes⟩ : ∃ bytes, E.canon.canonicalBytes (intentOf request).modelDump = .ok bytes :=
    hE _ (by simpa [MaterializationIntent.modelDump, intentOf] using hrequest.config)
  unfold materializationIntent
  dsimp only [intentOf] at hbytes ⊢
  rw [hbytes]

theorem digest_intentOf {rt : Runtime Λ} (hC : rt.canon.Total) (hrequest : WellPosed E request) :
    ∃ d, rt.canon.digest (intentOf request).modelDump = .ok d :=
  hC.digest (by simpa [MaterializationIntent.modelDump, intentOf] using hrequest.config)

/-- A capability that is selected is one that was listed. -/
theorem mem_of_selectCapability {capabilities : List Capability} {capability : Capability}
    (h : (selectCapability request capabilities).1 = some capability) :
    capability ∈ capabilities := by
  have hmem : capability ∈ matching request capabilities := by
    unfold selectCapability at h
    split at h
    · cases h
    · next hmatching =>
      rw [hmatching]
      exact List.mem_singleton.mpr (Option.some.inj h).symm
    · cases h
  unfold matching at hmem
  dsimp only at hmem
  split at hmem
  · exact (List.mem_filter.mp (List.mem_filter.mp hmem).1).1
  · exact (List.mem_filter.mp (List.mem_filter.mp hmem).1).1
  · exact (List.mem_filter.mp hmem).1

theorem planOf_ok (hE : E.canon.Total) (hnames : E.canon.NamesDicts)
    (hrequest : WellPosed E request) {episode : Episode} {initial : Observation}
    {capability : Capability} (hid : episode.episodeId ≠ "") (henv : episode.environmentId ≠ "")
    (hiri : capability.iri ≠ "") :
    ∃ action prepared, planOf E request episode initial capability = .ok (action, prepared) ∧
      prepared.episodeId = episode.episodeId ∧ prepared.idempotencyKey = request.idempotencyKey := by
  obtain ⟨d, hd⟩ : ∃ d, admissionDigest E request initial capability = .ok d :=
    hE.digest (by simpa using hrequest.payload)
  have hdne : d ≠ "" := hnames _ _ hd
  have hne : episode.episodeId ≠ "" ∧ d ≠ "" ∧ request.idempotencyKey ≠ "" :=
    ⟨hid, hdne, request.idempotencyKey_ne⟩
  simp only [planOf, subjectOf, dif_pos henv, actionOf, dif_pos hiri, hd, Except.mapError,
    constructPreparedAction, hrequest.schema, dif_pos hne, Except.bind, bind, pure, Except.pure]
  exact ⟨_, _, rfl, rfl, rfl⟩

end Plan

/-! ### What the calls of a run leave -/

section Serve

variable {rt : Runtime Λ} {E : ControllerEnv} {request : ConsequenceRequest} {issuer : Issuer}
  {κ : Oracle (kernelSig Λ)} {moment : ℤ} {key id : String} {k k₁ k₂ k₃ : KernelAt Λ}

/-- No episode is new, and nothing was actuated under the key. -/
structure Calm (key : String) (k k' : KernelAt Λ) : Prop where
  stored : Stored k.1 k'.1
  index : k'.1.actuationIdempotency = k.1.actuationIdempotency
  acts : keyedActs key k'.2 = keyedActs key k.2

/-- At most one actuation under the key, of one episode; none where its result was cached. -/
structure ActsOnce (id key : String) (k k' : KernelAt Λ) : Prop where
  stored : Stored k.1 k'.1
  once : keyedActs key k'.2 = keyedActs key k.2 ∨
    keyedActs key k'.2 = keyedActs key k.2 + 1 ∧ k'.1.actuationIdempotency (id, key) ≠ none
  never : k.1.actuationIdempotency (id, key) ≠ none →
    keyedActs key k'.2 = keyedActs key k.2 ∧ k'.1.actuationIdempotency (id, key) ≠ none

theorem Calm.refl (k : KernelAt Λ) : Calm key k k := ⟨.refl _, rfl, rfl⟩

theorem Calm.trans (h : Calm key k k₁) (h' : Calm key k₁ k₂) : Calm key k k₂ :=
  ⟨h.stored.trans h'.stored, h'.index.trans h.index, h'.acts.trans h.acts⟩

theorem Calm.actsOnce (h : Calm key k k₁) : ActsOnce id key k k₁ :=
  ⟨h.stored, .inl h.acts, fun hcached => ⟨h.acts, by rwa [h.index]⟩⟩

theorem ActsOnce.trans_calm (h : ActsOnce id key k k₁) (h' : Calm key k₁ k₂) :
    ActsOnce id key k k₂ := by
  obtain ⟨hstored, honce, hnever⟩ := h
  refine ⟨hstored.trans h'.stored, ?_, ?_⟩
  · rwa [h'.acts, h'.index]
  · rwa [h'.acts, h'.index]

theorem Calm.trans_actsOnce (h : Calm key k k₁) (h' : ActsOnce id key k₁ k₂) :
    ActsOnce id key k k₂ := by
  obtain ⟨hstored, honce, hnever⟩ := h'
  refine ⟨h.stored.trans hstored, ?_, ?_⟩
  · rwa [h.acts] at honce
  · rwa [h.acts, h.index] at hnever

/-- Looking at the capabilities of a registered episode. -/
theorem serve_capabilities {caps : Environment → List Capability}
    (hκ : ∀ log c, Steady caps c (κ log c)) {st : EpisodeState} (hst : k.1.episodes id = some st) :
    (serve rt issuer κ moment (.capabilities id) k).1 = .ok (caps st.environment) ∧
      Calm key k (serve rt issuer κ moment (.capabilities id) k).2 := by
  have hpost : post (S := kernelSig Λ) (Steady caps) (fun r w' log' =>
      r = .ok (caps st.environment) ∧ w' = k.1 ∧ keyedActs key log' = keyedActs key k.2)
      (GymAct.capabilities id) k.1 k.2 := by
    rw [GymAct.capabilities, post_bind, GymAct.state, post_bind, post_getState, post_onOk, hst,
      post_pure, post_onOk]
    refine kernel_post_immediate.mpr fun r (hr : r = .ok (caps st.environment)) => ?_
    subst hr
    exact ⟨rfl, rfl, keyedActs_snoc trivial⟩
  obtain ⟨hr, hw, hacts⟩ := exec_of_post hκ _ hpost
  refine ⟨hr, ?_, congrArg World.actuationIdempotency hw, hacts⟩
  show Stored k.1 (exec κ (GymAct.capabilities id) k.1 k.2).2.1
  rw [hw]
  exact .refl _

theorem calm_teardown (authorityRef : Option String) :
    Calm key k (serve rt issuer κ moment (.teardown id authorityRef) k).2 := by
  have hstored := exec_of_post (ω := κ) (fun _ _ => trivial) (teardown rt id authorityRef)
    (keeps_stored_teardown (A := fun _ _ => True) id authorityRef k.1 k.2 (.refl k.1))
  have hcounts : (exec κ (teardown rt id authorityRef) k.1 k.2).2.1.actuationIdempotency =
      k.1.actuationIdempotency ∧
        keyedActs key (exec κ (teardown rt id authorityRef) k.1 k.2).2.2 = keyedActs key k.2 :=
    exec_otherOp (show ∀ intent, Op.teardown id authorityRef ≠ .act intent from nofun) rfl
  exact ⟨hstored, hcounts.1, hcounts.2⟩

/-- An execution that returns. -/
theorem actsOnce_execute (hC : rt.canon.Total) {brokered : BrokerRequest} {t : VerifiedTransition}
    (hid : brokered.prepared.episodeId = id) (hkey : brokered.prepared.idempotencyKey = key)
    (ht : (serve rt issuer κ moment (.execute brokered) k).1 = .ok t) :
    ActsOnce id key k (serve rt issuer κ moment (.execute brokered) k).2 := by
  subst hid hkey
  have hstored := exec_of_post (ω := κ) (fun _ _ => trivial) (brokerExecute rt .production brokered moment)
    (keeps_stored_execute (A := fun _ _ => True) hC brokered moment k.1 k.2 (.refl k.1))
  obtain ⟨honce, hnever⟩ := execute_acts hC ht
  exact ⟨hstored, honce, hnever⟩

theorem postOn_call {answer : Server controllerSig (KernelAt Λ)} (c : ControllerCall)
    {R : Except Exc c.Value → Unit → KernelAt Λ → Log controllerSig → Prop} {s : Unit}
    {calls : Log controllerSig} :
    postOn (S := controllerSig) answer R (call c) s k calls ↔
      R (answer c k).1 s (answer c k).2 (calls ++ [⟨c, (answer c k).1⟩]) := Iff.rfl

theorem postOn_callNow {answer : Server controllerSig (KernelAt Λ)} (c : ControllerCall)
    {R : Except Exc c.Value → Unit → KernelAt Λ → Log controllerSig → Prop} {s : Unit}
    {calls : Log controllerSig} :
    postOn (S := controllerSig) answer R (callNow c) s k calls ↔
      R (answer c k).1 s (answer c k).2 (calls ++ [⟨c, (answer c k).1⟩]) := Iff.rfl

/-- `_finish` returns, and leaves the kernel calm. -/
theorem postOn_finish (m : MaterializationResult) (ending : Ending) {calls : Log controllerSig} :
    postOn (serve rt issuer κ moment) (fun r _ k' _ => ∃ outcome, r = .ok outcome ∧
      outcome.standing = ending.standing ∧ Calm request.idempotencyKey k k')
      (finish E request m ending) () k calls := by
  unfold finish
  cases hepisode : m.episode with
  | none => exact ⟨_, rfl, rfl, .refl k⟩
  | some episode =>
    have hcalm : Calm request.idempotencyKey k (serve rt issuer κ moment
        (.teardown episode.episodeId request.authorityRef) k).2 := calm_teardown _
    dsimp only [Option.map_some]
    rw [postOn_bind, cleanup, postOn_bind, postOn_attempt, call, postOn_bind, postOn_awaitCall]
    show postOn _ _ (onOk _ (.ok (serve rt issuer κ moment
      (.teardown episode.episodeId request.authorityRef) k).1)) _ _ _
    cases (serve rt issuer κ moment (.teardown episode.episodeId request.authorityRef) k).1 with
    | error e => exact ⟨_, rfl, rfl, hcalm⟩
    | ok receipt => exact ⟨_, rfl, rfl, hcalm⟩

/-- Where the broker answers, the run returns with this standing, and the provider acted at most
once since. -/
def Finishes (request : ConsequenceRequest) (stands : BrokerRequest → Standing) (id : String)
    (standing : Standing) (k : KernelAt Λ) (r : Except Exc AutonomicOutcome) (_ : Unit)
    (k' : KernelAt Λ) (calls : Log controllerSig) : Prop :=
  BrokerAnswers stands calls → ∃ outcome, r = .ok outcome ∧ outcome.standing = standing ∧
    ActsOnce id request.idempotencyKey k k'

section Attend

variable {stands : BrokerRequest → Standing} {standing : Standing} {m : MaterializationResult}
  {episode : Episode} {initial : Observation} {capability : Capability} {action : ActionDefinition}
  {prepared : PreparedAction} {records : List AutonomicPhaseRecord} {calls : Log controllerSig}

theorem postOn_finish_of_acts {ending : Ending} (hacts : ActsOnce id request.idempotencyKey k k₁)
    (hstanding : ending.standing = standing) :
    postOn (serve rt issuer κ moment) (Finishes request stands id standing k)
      (finish E request m ending) () k₁ calls := by
  refine postOn_mono (fun r _ k' _ hended _ => ?_) _ (postOn_finish m ending)
  obtain ⟨outcome, hr, hended, hcalm⟩ := hended
  exact ⟨outcome, hr, hended.trans hstanding, hacts.trans_calm hcalm⟩

/-- The granted action is executed. -/
theorem postOn_execute (hC : rt.canon.Total) {grant : ExecutionGrant}
    (hprepared : prepared.episodeId = id) (hkey : prepared.idempotencyKey = request.idempotencyKey)
    (hcalm : Calm request.idempotencyKey k k₁)
    (hstanding : stands (brokerRequest request action prepared grant) = standing) :
    postOn (serve rt issuer κ moment)
      (fun r s k' calls' => postOn (serve rt issuer κ moment) (Finishes request stands id standing k)
        (onOk (finish E request m) r) s k' calls')
      (call (.execute (brokerRequest request action prepared grant)) >>= fun transition =>
        pure (executed capability initial records transition)) () k₁ calls := by
  rw [postOn_bind, postOn_call]
  cases ht : (serve rt issuer κ moment (.execute (brokerRequest request action prepared grant)) k₁).1 with
  | error e =>
    intro hanswers
    obtain ⟨t, hraised, -⟩ := hanswers _ (.error e) (List.mem_append_right _ List.mem_cons_self)
    cases hraised
  | ok t =>
    have hacts := hcalm.trans_actsOnce (actsOnce_execute hC hprepared hkey ht)
    rw [postOn_onOk, postOn_pure, postOn_onOk]
    -- the answer of the broker is still in the log at the end
    refine postOn_mono (fun r _ k' calls' hended hanswers => ?_) _
      (postOn_and (postOn_finish m (executed capability initial _ t))
        (postOn_logged (S := controllerSig)
          (e := ⟨ControllerCall.execute (brokerRequest request action prepared grant), .ok t⟩) _
          (List.mem_append_right _ List.mem_cons_self)))
    obtain ⟨⟨outcome, hr, houtcome, hcalm'⟩, hlogged⟩ := hended
    obtain ⟨t', ht', hstood⟩ := hanswers _ _ hlogged
    cases ht'
    exact ⟨outcome, hr, houtcome.trans (hstood.trans hstanding), hacts.trans_calm hcalm'⟩

/-- A capability whose action can be constructed is pursued to the end. -/
theorem postOn_pursue (hC : rt.canon.Total) {capabilities : List Capability} {reason : String}
    {selected : Standing} (hepisode : m.episode = some episode)
    (hinitial : m.observation = some initial)
    (hselected : selectCapability request capabilities = (some capability, selected, reason))
    (hplan : planOf E request episode initial capability = .ok (action, prepared))
    (hprepared : prepared.episodeId = id) (hkey : prepared.idempotencyKey = request.idempotencyKey)
    (hcalm : Calm request.idempotencyKey k k₁) :
    postOn (serve rt issuer κ moment)
      (fun r s k' calls' => postOn (serve rt issuer κ moment)
        (Finishes request stands id (attendedStanding E request issuer stands m capabilities) k)
        (onOk (finish E request m) r) s k' calls')
      (pursue E request episode initial capability records) () k₁ calls := by
  rw [pursue, postOn_bind, postOn_lift, hplan, postOn_onOk]
  dsimp only
  by_cases hissuer : E.issuer = false
  · have hstanding : Standing.refused = attendedStanding E request issuer stands m capabilities := by
      simp [attendedStanding, hselected, hepisode, hinitial, hplan, hissuer]
    rw [if_pos hissuer]
    exact postOn_finish_of_acts hcalm.actsOnce hstanding
  · let issue := issuer action prepared ("urn:gymact:observation:" ++ initial.stateDigest)
      request.authorityRef
    have hissued : serve rt issuer κ moment (issueCall request action prepared initial) k₁ =
        (.ok issue, k₁) := rfl
    rw [if_neg hissuer, postOn_bind, postOn_call, hissued]
    refine (postOn_onOk _ issue).mpr ?_
    dsimp only
    cases hgrant : usableGrant issue with
    | none =>
      have hstanding : issue.standing = attendedStanding E request issuer stands m capabilities := by
        simp [attendedStanding, hselected, hepisode, hinitial, hplan, hissuer, hgrant, issue]
      exact postOn_finish_of_acts hcalm.actsOnce hstanding
    | some grant =>
      refine postOn_execute hC hprepared hkey hcalm ?_
      simp [attendedStanding, hselected, hepisode, hinitial, hplan, hissuer, hgrant, issue]

variable (stands) in
/-- A registered episode is attended to the end. -/
theorem postOn_attend (hC : rt.canon.Total) (hE : E.canon.Total) (hnames : E.canon.NamesDicts)
    (hrequest : WellPosed E request) {caps : Environment → List Capability}
    (hcaps : ∀ env, ∀ capability ∈ caps env, capability.iri ≠ "")
    (hκ : ∀ log c, Steady caps c (κ log c)) {st : EpisodeState}
    (hepisode : m.episode = some episode) (hinitial : m.observation = some initial)
    (hst : k.1.episodes episode.episodeId = some st) (hid : episode.episodeId ≠ "")
    (henv : episode.environmentId ≠ "") :
    postOn (serve rt issuer κ moment)
      (Finishes request stands episode.episodeId
        (attendedStanding E request issuer stands m (caps st.environment)) k)
      (attend E request m episode records >>= finish E request m) () k calls := by
  obtain ⟨hlisted, hcalm⟩ : (serve rt issuer κ moment (.capabilities episode.episodeId) k).1 =
        .ok (caps st.environment) ∧ Calm request.idempotencyKey k
          (serve rt issuer κ moment (.capabilities episode.episodeId) k).2 :=
    serve_capabilities hκ hst
  rw [postOn_bind, attend, firstLook, hinitial]
  show postOn _ _ (analyze E request m episode initial records) _ _ _
  rw [analyze, postOn_bind, postOn_callNow, hlisted, postOn_onOk]
  rcases hselected : selectCapability request (caps st.environment) with
    ⟨_ | capability, standing, reason⟩
  · have hstanding : standing = attendedStanding E request issuer stands m (caps st.environment) := by
      simp [attendedStanding, hselected]
    exact postOn_finish_of_acts hcalm.actsOnce hstanding
  · have hcapability : capability ∈ caps st.environment :=
      mem_of_selectCapability (congrArg Prod.fst hselected)
    obtain ⟨action, prepared, hplan, hprepared, hkey⟩ := planOf_ok hE hnames hrequest hid henv
      (hcaps _ _ hcapability)
    exact postOn_pursue hC hepisode hinitial hselected hplan hprepared hkey hcalm

end Attend

end Serve

/-! ### A run from what is cached to what is cached -/

section Ends

variable {rt : Runtime Λ} {E : ControllerEnv} {request : ConsequenceRequest} {issuer : Issuer}
  {κ : Oracle (kernelSig Λ)} {moment : ℤ} {k k' : KernelAt Λ}
  {caps : Environment → List Capability} {stands : BrokerRequest → Standing} {standing : Standing}
  {m : MaterializationResult} {d : String} {n : ℕ}

theorem Stands.stored {w w' : World Λ} (h : Stands E request issuer caps stands m w standing)
    (hstored : Stored w w') : Stands E request issuer caps stands m w' standing := by
  refine ⟨fun haccepted episode st hepisode hst => ?_, h.2⟩
  rcases hstored.2 episode.episodeId with hsame | hnone
  · exact h.1 haccepted episode st hepisode (hsame ▸ hst)
  · rw [hnone] at hst
    cases hst

theorem Settles.stored {w w' : World Λ} (h : Settles rt E request issuer caps stands w standing)
    (hstored : Stored w w') : Settles rt E request issuer caps stands w' standing := by
  obtain ⟨entry, hentry, hsame, hother⟩ := h
  exact ⟨entry, by rw [hstored.1, hentry], fun h => (hsame h).stored hstored, hother⟩

/-- What is answered is what the cache settles. -/
theorem Stands.settles {w w' : World Λ} (h : Stands E request issuer caps stands m w' standing)
    (hd : rt.canon.digest (intentOf request).modelDump = .ok d)
    (hanswered : Answered (intentOf request) d w m w') :
    Settles rt E request issuer caps stands w' standing := by
  obtain ⟨entry, hentry, hsame, hother⟩ := hanswered.cached
  refine ⟨entry, hentry, fun hdigest => ?_, fun hdigest => ?_⟩
  · rw [hd, Except.ok.injEq] at hdigest
    rw [hsame hdigest.symm]
    exact h
  · have hne : entry.intentDigest ≠ d := fun he => hdigest (he ▸ hd)
    exact (h.2 (hother hne).1).trans (hother hne).2

theorem Settles.answers {w w' : World Λ} (h : Settles rt E request issuer caps stands w standing)
    (hd : rt.canon.digest (intentOf request).modelDump = .ok d)
    (hanswered : Answered (intentOf request) d w m w') :
    Stands E request issuer caps stands m w' standing := by
  obtain ⟨entry, hentry, hsame, hother⟩ := h
  obtain ⟨hstays, hepisodes⟩ := hanswered.kept entry hentry
  obtain ⟨entry', hentry', hsame', hother'⟩ := hanswered.cached
  obtain rfl : entry = entry' := Option.some.inj (hstays.symm.trans hentry')
  by_cases hdigest : entry.intentDigest = d
  · rw [← hsame' hdigest]
    have hstands := hsame (hdigest ▸ hd)
    exact ⟨fun haccepted episode st hepisode hst =>
      hstands.1 haccepted episode st hepisode (hepisodes ▸ hst), hstands.2⟩
  · have hrefused : standing = .refused := hother fun he => hdigest (by
      rw [hd, Except.ok.injEq] at he
      exact he.symm)
    obtain ⟨hnot, hstanding⟩ := hother' hdigest
    refine ⟨fun haccepted => ?_, fun _ => hrefused.trans hstanding.symm⟩
    rw [hnot] at haccepted
    cases haccepted

/-- Where one run stands, no other standing is settled. -/
theorem Stands.unique {w : World Λ} {standing' : Standing}
    (h : Stands E request issuer caps stands m w standing)
    (h' : Stands E request issuer caps stands m w standing')
    (hopened : m.accepted = true → Opened m w) : standing = standing' := by
  cases haccepted : m.accepted with
  | false => exact (h.2 haccepted).trans (h'.2 haccepted).symm
  | true =>
    obtain ⟨-, ⟨episode, st, hepisode, hst, -⟩, -⟩ := hopened haccepted
    exact (h.1 haccepted episode st hepisode hst).trans (h'.1 haccepted episode st hepisode hst).symm

/-- An accepted materialization is open after it was answered. -/
theorem opened_of_answered (hk : Rerunnable rt request k.1)
    (hd : rt.canon.digest (intentOf request).modelDump = .ok d)
    (hanswered : Answered (intentOf request) d k.1 m k'.1) (haccepted : m.accepted = true) :
    Opened m k'.1 := by
  cases hcached : k.1.materializationIdempotency (intentOf request).idempotencyKey with
  | none => exact hanswered.opened hcached haccepted
  | some entry =>
    obtain ⟨hstays, hepisodes⟩ := hanswered.kept entry hcached
    obtain ⟨entry', hentry', hsame, hother⟩ := hanswered.cached
    obtain rfl : entry = entry' := Option.some.inj (hstays.symm.trans hentry')
    by_cases hdigest : entry.intentDigest = d
    · obtain rfl := hsame hdigest
      obtain ⟨-, ⟨episode, st, hepisode, hst, hne⟩, hobserved⟩ :=
        hk.opened entry ⟨hcached, hdigest ▸ hd⟩ haccepted
      exact ⟨haccepted, ⟨episode, st, hepisode, by rw [hepisodes, hst], hne⟩, hobserved⟩
    · have hnot := (hother hdigest).1
      rw [haccepted] at hnot
      cases hnot

theorem Spent.calm (h : Spent request n k) (hcalm : Calm request.idempotencyKey k k') :
    Spent request n k' := by
  unfold Spent at h ⊢
  rwa [hcalm.acts, hcalm.stored.1, hcalm.index]

/-- The actuation of a run is the first one under the key. -/
theorem Spent.actsOnce {k₁ : KernelAt Λ} {episode : Episode} {w : World Λ} (h : Spent request n k)
    (hanswered : Answered (intentOf request) d w m k.1) (haccepted : m.accepted = true)
    (hepisode : m.episode = some episode)
    (hacts : ActsOnce episode.episodeId request.idempotencyKey k k₁) : Spent request n k₁ := by
  obtain ⟨entry, hentry, hsame, hother⟩ := hanswered.cached
  have hresult : entry.result = m := by
    by_contra hne
    obtain ⟨hnot, -⟩ := hother fun hdigest => hne (hsame hdigest)
    rw [haccepted] at hnot
    cases hnot
  have hentry' : k₁.1.materializationIdempotency (intentOf request).idempotencyKey = some entry := by
    rw [hacts.stored.1, hentry]
  have hepisode' : entry.result.episode = some episode := hresult ▸ hepisode
  rcases h with hle | ⟨heq, entry₂, episode₂, hentry₂, hepisode₂, hindex⟩
  · rcases hacts.once with hnone | ⟨hone, hindex⟩
    · exact .inl (hnone.trans_le hle)
    · rcases Nat.lt_or_ge n (keyedActs request.idempotencyKey k₁.2) with hlt | hge
      · exact .inr ⟨by omega, entry, episode, hentry', hepisode', hindex⟩
      · exact .inl hge
  · obtain rfl : entry = entry₂ := Option.some.inj (hentry.symm.trans hentry₂)
    obtain rfl : episode = episode₂ := Option.some.inj (hepisode'.symm.trans hepisode₂)
    obtain ⟨hnone, hindex'⟩ := hacts.never hindex
    exact .inr ⟨hnone.trans heq, entry, episode, hentry', hepisode', hindex'⟩

/-- A run returns, stands as the cache settles it, and leaves it so for the next. -/
theorem rerun_ends (hC : rt.canon.Total) (hpromotes : rt.promotes = true)
    (huuid : ∀ i, rt.uuid4 i ≠ "") (hE : E.canon.Total) (hnames : E.canon.NamesDicts)
    (hrequest : WellPosed E request)
    (hcaps : ∀ env, ∀ capability ∈ caps env, capability.iri ≠ "")
    (hκ : ∀ log c, Steady caps c (κ log c)) (hk : Rerunnable rt request k.1)
    (hspent : Spent request n k)
    (hanswers : BrokerAnswers stands (rerun rt E request issuer κ k moment).1.2) :
    ∃ outcome, (rerun rt E request issuer κ k moment).1.1 = .ok outcome ∧
      (∀ standing, Settles rt E request issuer caps stands k.1 standing →
        outcome.standing = standing) ∧
      Settles rt E request issuer caps stands (rerun rt E request issuer κ k moment).2.1
        outcome.standing ∧
      Spent request n (rerun rt E request issuer κ k moment).2 := by
  have hdigest : ∃ d, rt.canon.digest (intentOf request).modelDump = .ok d := digest_intentOf hC hrequest
  obtain ⟨d, hd⟩ := hdigest
  have hpost : post (S := kernelSig Λ) (Steady caps) (fun r w' _ =>
      ∃ m, r = .ok m ∧ Answered (intentOf request) d k.1 m w')
      (materialize rt (intentOf request)) k.1 k.2 :=
    post_materialize_answers hC hpromotes huuid hrequest.config hd fun hother =>
      hk.taken fun entry hentry => hother entry hentry.1 (Except.ok.inj (hentry.2.symm.trans hd))
  obtain ⟨m, hm, hanswered⟩ := exec_of_post hκ _ hpost
  have hcounts : (exec κ (materialize rt (intentOf request)) k.1 k.2).2.1.actuationIdempotency =
      k.1.actuationIdempotency ∧
        keyedActs request.idempotencyKey (exec κ (materialize rt (intentOf request)) k.1 k.2).2.2 =
          keyedActs request.idempotencyKey k.2 :=
    exec_otherOp (show ∀ intent, Op.materialize (intentOf request) ≠ .act intent from nofun) rfl
  obtain ⟨hindex, hacts⟩ := hcounts
  have hserved : serve rt issuer κ moment (.materialize (intentOf request)) k =
    (.ok m, (exec κ (materialize rt (intentOf request)) k.1 k.2).2) := Prod.ext hm rfl
  generalize (exec κ (materialize rt (intentOf request)) k.1 k.2).2 = k₁ at *
  have hopened : m.accepted = true → Opened m k₁.1 := opened_of_answered hk hd hanswered
  have hspent₁ : Spent request n k₁ := by
    rcases hspent with hle | ⟨heq, entry, episode, hentry, hepisode, hcached⟩
    · exact .inl (hacts.trans_le hle)
    · exact .inr ⟨hacts.trans heq, entry, episode, (hanswered.kept entry hentry).1, hepisode,
        by rwa [hindex]⟩
  have hsettled : ∀ {standing} {k' : KernelAt Λ}, Stands E request issuer caps stands m k₁.1 standing →
      Stored k₁.1 k'.1 → (∀ s, Settles rt E request issuer caps stands k.1 s → standing = s) ∧
        Settles rt E request issuer caps stands k'.1 standing := fun hstands hstored =>
    ⟨fun s hs => hstands.unique (hs.answers hd hanswered) hopened,
      (hstands.settles hd hanswered).stored hstored⟩
  have hends : postOn (serve rt issuer κ moment) (fun r _ k' calls => BrokerAnswers stands calls →
      ∃ outcome, r = .ok outcome ∧ (∀ standing, Settles rt E request issuer caps stands k.1 standing →
        outcome.standing = standing) ∧ Settles rt E request issuer caps stands k'.1 outcome.standing ∧
        Spent request n k') (run E request) () k [] := by
    rw [run, postOn_bind, postOn_lift, materializationIntent_ok hE hrequest, postOn_onOk, postOn_bind,
      postOn_call, hserved, postOn_onOk]
    dsimp only
    cases haccepted : m.accepted with
    | false =>
      refine postOn_mono (fun r _ k' _ hended _ => ?_) _ (postOn_finish m
        { standing := m.standing, records := _, reason := orElse m.receipt.reason "MATERIALIZATION_NOT_ACCEPTED" })
      obtain ⟨outcome, hr, hstanding, hcalm⟩ := hended
      have hstands : Stands E request issuer caps stands m k₁.1 outcome.standing := by
        refine ⟨fun h => ?_, fun _ => hstanding⟩
        rw [haccepted] at h
        cases h
      obtain ⟨hsame, hleft⟩ := hsettled hstands hcalm.stored
      exact ⟨outcome, hr, hsame, hleft, hspent₁.calm hcalm⟩
    | true =>
      obtain ⟨-, ⟨episode, st, hepisode, hst, hid, henv⟩, hobserved⟩ := hopened haccepted
      obtain ⟨initial, hinitial⟩ := Option.ne_none_iff_exists'.mp hobserved
      rw [hepisode]
      dsimp only
      refine postOn_mono (fun r _ k' _ hended hcalls => ?_) _ (postOn_attend stands hC hE hnames hrequest
        hcaps hκ hepisode hinitial hst hid henv)
      obtain ⟨outcome, hr, hstanding, hacts'⟩ := hended hcalls
      have hstands : Stands E request issuer caps stands m k₁.1 outcome.standing := by
        refine ⟨fun _ episode' st' hepisode' hst' => ?_, fun h => ?_⟩
        · obtain rfl : episode = episode' := Option.some.inj (hepisode.symm.trans hepisode')
          obtain rfl : st = st' := Option.some.inj (hst.symm.trans hst')
          exact hstanding
        · rw [haccepted] at h
          cases h
      obtain ⟨hsame, hleft⟩ := hsettled hstands hacts'.stored
      exact ⟨outcome, hr, hsame, hleft, hspent₁.actsOnce hanswered haccepted hepisode hacts'⟩
  exact hends hanswers

end Ends

/-- Runs of one request, each of which finds the cached episode registered if it was accepted :
none raises, all stand as the first, and the provider acts at most once under the key. -/
theorem reruns_answered (rt : Runtime Λ) (hC : rt.canon.Total) (hpromotes : rt.promotes = true)
    (huuid : ∀ i, rt.uuid4 i ≠ "") (E : ControllerEnv) (hE : E.canon.Total)
    (hnames : E.canon.NamesDicts) (request : ConsequenceRequest) (hrequest : WellPosed E request)
    (issuer : Issuer) (κ : Oracle (kernelSig Λ)) (caps : Environment → List Capability)
    (hcaps : ∀ env, ∀ capability ∈ caps env, capability.iri ≠ "")
    (hκ : ∀ log c, Steady caps c (κ log c)) (stands : BrokerRequest → Standing) (k : KernelAt Λ)
    (moments : List ℤ)
    (hsteps : ∀ t ∈ Runs.trace (rerun rt E request issuer κ) k moments,
      Rerunnable rt request t.before.1 ∧ BrokerAnswers stands t.reply.2) :
    (∃ standing, ∀ t ∈ Runs.trace (rerun rt E request issuer κ) k moments,
        ∃ outcome, t.reply.1 = .ok outcome ∧ outcome.standing = standing) ∧
      keyedActs request.idempotencyKey (Runs.run (rerun rt E request issuer κ) k moments).2 ≤
        keyedActs request.idempotencyKey k.2 + 1 := by
  have hspent : ∀ k' : KernelAt Λ, Spent request (keyedActs request.idempotencyKey k.2) k' →
      keyedActs request.idempotencyKey k'.2 ≤ keyedActs request.idempotencyKey k.2 + 1 := by
    rintro k' (hle | ⟨heq, -⟩) <;> omega
  -- what is settled once stays so
  have hlater : ∀ (moments : List ℤ) (k' : KernelAt Λ) standing,
      Settles rt E request issuer caps stands k'.1 standing →
      Spent request (keyedActs request.idempotencyKey k.2) k' →
      (∀ t ∈ Runs.trace (rerun rt E request issuer κ) k' moments,
        Rerunnable rt request t.before.1 ∧ BrokerAnswers stands t.reply.2) →
      (∀ t ∈ Runs.trace (rerun rt E request issuer κ) k' moments,
        ∃ outcome, t.reply.1 = .ok outcome ∧ outcome.standing = standing) ∧
        Spent request (keyedActs request.idempotencyKey k.2)
          (Runs.run (rerun rt E request issuer κ) k' moments) := by
    intro moments
    induction moments with
    | nil => exact fun k' standing _ hspent _ => ⟨fun _ ht => (List.not_mem_nil ht).elim, hspent⟩
    | cons moment moments ih =>
      intro k' standing hsettles hspent hsteps
      rw [Runs.trace, List.forall_mem_cons] at hsteps
      obtain ⟨⟨hk, hanswers⟩, hrest⟩ := hsteps
      obtain ⟨outcome, hr, hsame, hleft, hspent'⟩ := rerun_ends hC hpromotes huuid hE hnames hrequest
        hcaps hκ hk hspent hanswers
      rw [hsame standing hsettles] at hleft
      obtain ⟨hall, hend⟩ := ih _ standing hleft hspent' hrest
      rw [Runs.trace, List.forall_mem_cons]
      exact ⟨⟨⟨outcome, hr, hsame standing hsettles⟩, hall⟩, hend⟩
  cases moments with
  | nil => exact ⟨⟨.alive, fun _ ht => (List.not_mem_nil ht).elim⟩, Nat.le_succ _⟩
  | cons moment moments =>
    rw [Runs.trace, List.forall_mem_cons] at hsteps
    obtain ⟨⟨hk, hanswers⟩, hrest⟩ := hsteps
    obtain ⟨outcome, hr, -, hleft, hspent'⟩ := rerun_ends hC hpromotes huuid hE hnames hrequest
      hcaps hκ hk (.inl le_rfl) hanswers
    obtain ⟨hall, hend⟩ := hlater moments _ _ hleft hspent' hrest
    refine ⟨⟨outcome.standing, ?_⟩, hspent _ hend⟩
    rw [Runs.trace, List.forall_mem_cons]
    exact ⟨⟨outcome, hr, rfl⟩, hall⟩

/-! ### Runs to look at -/

/-- `BoundedGrantIssuer.issue`, where what it grants can be constructed. -/
def boundedIssuer (allowed : List String) : Issuer :=
  fun action prepared admittedObservationRef authorityRef =>
    match authorityRef with
    | none => ⟨.refused, none, "AUTHORITY_NOT_ADMITTED", nofun⟩
    | some authority =>
      if h : authority ∈ allowed ∧ authority ≠ "" ∧ admittedObservationRef ≠ "" then
        ⟨.alive, some
          { principal := "urn:gymact:principal:autonomic-local", actionRef := action.semanticId
            subject := prepared.subject, capabilityRef := action.capabilityRef
            authorityRef := authority, policyRevision := "local-bounded-v1", admittedObservationRef
            intendedEffects := action.expectedEffects
            scopeRefs := [prepared.subject.semanticId, prepared.subject.providerRef]
            nonce := prepared.idempotencyKey
            actionRef_ne := action.semanticId_ne, capabilityRef_ne := action.capabilityRef_ne
            authorityRef_ne := h.2.1, admittedObservationRef_ne := h.2.2
            nonce_ne := prepared.idempotencyKey_ne }, "GRANT_ISSUED", nofun⟩
      else ⟨.refused, none, "AUTHORITY_NOT_ADMITTED", nofun⟩

/-- One request under an authority. -/
def authorizedRequest : ConsequenceRequest := { levelRequest with authorityRef := some "authority" }

/-- A new runtime with one provider. -/
def oneProvider : KernelAt MemoryReceiptLedger :=
  runOps sampleRuntime sampleOutside [.registerProvider ⟨"memory", false⟩] (newWorld, [])

/-- The sample runs of the request. -/
def sampleRerun (κ : KernelOracle) :
    KernelAt MemoryReceiptLedger → ℤ →
      (Except Exc AutonomicOutcome × Log controllerSig) × KernelAt MemoryReceiptLedger :=
  rerun sampleRuntime permissive authorizedRequest (boundedIssuer ["authority"]) κ

/-- The first run stands alive and tears its episode down; the second raises. -/
theorem rerun_unknown_episode :
    let first := sampleRerun sampleOutside oneProvider 0
    let second := sampleRerun sampleOutside first.2 1
    first.1.1.map AutonomicOutcome.standing = .ok .alive ∧
      second.1.1.map AutonomicOutcome.standing = .error (.keyError "unknown episode: a") := by
  decide +kernel

/-- The memory ledger takes a receipt under a key it does not know. -/
theorem ledgerTakes_of_unknown {rt : Runtime MemoryReceiptLedger} (hC : rt.canon.Total)
    (hL : UsesMemoryLedger rt) (hU : Function.Injective rt.uuid4) {w : MemoryWorld}
    {intent : MaterializationIntent} (hw : Drawn rt w)
    (hkey : w.ledger.byIdempotencyKey intent.idempotencyKey = none)
    (hroom : w.ledger.records.length ≤ 2 ^ 53 - 1) : LedgerTakes rt intent w := by
  intro receipt n hreceipt heffects hcosts hn
  have htaken : ∀ w' : MemoryWorld, w'.ledger = w.ledger → Drawn rt w' → ∃ L,
      rt.append w'.ledger (receipt.stamped (rt.uuid4 w'.supply) (rt.now w'.supply)) = .ok L := by
    intro w' hledger hw'
    cases happend : w'.ledger.append rt.canon
        (receipt.stamped (rt.uuid4 w'.supply) (rt.now w'.supply)) with
    | error e =>
      exact absurd happend (append_materializeExit hC hU hw' (by rwa [hledger]) (by rwa [hledger])
        ⟨hreceipt, heffects, hcosts⟩ e)
    | ok taken => exact ⟨taken.1, by rw [hL, happend]; rfl⟩
  rcases hn with rfl | rfl
  · exact htaken w rfl hw
  · exact htaken w.drawn rfl hw.draw

/-- An outside whose environments cannot be torn down. -/
def stuckOutside (log : KernelLog) : (c : Call) → c.Reply
  | .teardown .. => .error .timeout
  | c => sampleOutside log c

/-- An execution that answered alive. -/
def answeredAlive : (Σ c : ControllerCall, Except Exc c.Value) → Bool
  | ⟨.execute _, .ok t⟩ => t.standing = .alive
  | ⟨.execute _, .error _⟩ => false
  | _ => true

theorem brokerAnswers_of_alive {calls : Log controllerSig} (h : calls.all answeredAlive = true) :
    BrokerAnswers (fun _ => .alive) calls := by
  intro brokered r hr
  have halive := List.all_eq_true.mp h _ hr
  cases r with
  | error e => cases halive
  | ok t => exact ⟨t, rfl, of_decide_eq_true halive⟩

/-- An entry whose episode is open in a world. -/
def opensIn (w : MemoryWorld) (entry : MaterializationRecord) : Bool :=
  entry.result.accepted && entry.result.observation.isSome &&
    entry.result.episode.any fun episode => (w.episodes episode.episodeId).isSome &&
      decide (episode.episodeId ≠ "") && decide (episode.environmentId ≠ "")

theorem opened_of_opensIn {w : MemoryWorld} {entry : MaterializationRecord}
    (h : opensIn w entry = true) : Opened entry.result w := by
  obtain ⟨⟨haccepted, hobserved⟩, hepisode⟩ := by simpa only [opensIn, Bool.and_eq_true] using h
  obtain ⟨episode, hepisode, hopen⟩ := Option.any_eq_true _ _ |>.mp hepisode
  obtain ⟨⟨hst, hid⟩, henv⟩ := by simpa only [Bool.and_eq_true] using hopen
  obtain ⟨st, hst⟩ := Option.isSome_iff_exists.mp hst
  exact ⟨haccepted, ⟨episode, st, hepisode, hst, of_decide_eq_true hid, of_decide_eq_true henv⟩,
    Option.ne_none_iff_isSome.mpr hobserved⟩

/-- The episode of a teardown that failed is still registered : the second run stands alive too,
and the environment was actuated once. -/
theorem reruns_answered_stuck :
    (∃ standing, ∀ t ∈ Runs.trace (sampleRerun stuckOutside) oneProvider [0, 1],
        ∃ outcome, t.reply.1 = .ok outcome ∧ outcome.standing = standing) ∧
      keyedActs "k" (Runs.run (sampleRerun stuckOutside) oneProvider [0, 1]).2 ≤ 1 := by
  have hκ : ∀ log c, Steady (fun _ => [sampleCapability]) c (stuckOutside log c) := by
    intro log c
    cases c with
    | authorize request => exact fun e h => by cases h
    | capabilities env => rfl
    | materialize site provider scenario config =>
      intro env h
      cases h
      exact fun h => by simpa using congrArg String.toList h
    | _ => trivial
  have huuid : ∀ i, sampleRuntime.uuid4 i ≠ "" := by
    intro i h
    have hlength := congrArg (fun s : String => s.toList.length) h
    simp [sampleRuntime] at hlength
  have hfirst : Rerunnable sampleRuntime authorizedRequest oneProvider.1 := by
    have hnone : oneProvider.1.materializationIdempotency
        (intentOf authorizedRequest).idempotencyKey = none := by decide +kernel
    refine ⟨fun entry hentry => ?_, fun _ => ?_⟩
    · rw [Remembers, hnone] at hentry
      cases hentry.1
    · exact ledgerTakes_of_unknown Canon.reference_total (fun _ _ => rfl)
        sampleRuntime_uuid4_injective (fun _ _ h => by cases h) rfl (Nat.zero_le _)
  have hsecond : Rerunnable sampleRuntime authorizedRequest
      (sampleRerun stuckOutside oneProvider 0).2.1 := by
    have hcached : ((sampleRerun stuckOutside oneProvider 0).2.1.materializationIdempotency
        (intentOf authorizedRequest).idempotencyKey).any (fun entry =>
          opensIn (sampleRerun stuckOutside oneProvider 0).2.1 entry &&
            decide (sampleRuntime.canon.digest (intentOf authorizedRequest).modelDump =
              .ok entry.intentDigest)) = true := by decide +kernel
    obtain ⟨entry, hentry, hopens⟩ := (Option.any_eq_true _ _).mp hcached
    obtain ⟨hopens, hdigest⟩ := Bool.and_eq_true_iff.mp hopens
    refine ⟨fun entry' hentry' _ => ?_, fun hnone =>
      absurd ⟨hentry, of_decide_eq_true hdigest⟩ (hnone entry)⟩
    obtain rfl : entry = entry' := Option.some.inj (hentry.symm.trans hentry'.1)
    exact opened_of_opensIn hopens
  refine reruns_answered sampleRuntime Canon.reference_total rfl huuid permissive
    Canon.reference_total Canon.reference_namesDicts authorizedRequest ⟨rfl, rfl, rfl⟩
    (boundedIssuer ["authority"]) stuckOutside (fun _ => [sampleCapability]) (fun env c hc => ?_) hκ
    (fun _ => .alive) oneProvider [0, 1] ?_
  · rw [List.mem_singleton.mp hc]
    decide
  · intro t ht
    rcases List.mem_cons.mp ht with rfl | ht
    · exact ⟨hfirst, brokerAnswers_of_alive (by decide +kernel)⟩
    · obtain rfl := List.mem_singleton.mp ht
      exact ⟨hsecond, brokerAnswers_of_alive (by decide +kernel)⟩

end AutonomicController

end GymAct
