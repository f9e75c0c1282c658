import GymAct.KernelRuns

/-!
# Materialized environments

Between the moment a provider hands over an environment and the return of `materialize`
the kernel validates, observes, digests, registers the episode and appends a receipt.
The append can be refused : the ledger's key index spans all operations and episodes,
the kernel's materialization index only its own. While an uncached materialization key
is new to the ledger too, no environment is orphaned and no key materializes twice
(`materialized_not_orphaned`). `materialized_orphan` is a run where a key of an earlier
`act` orphans two environments.
-/

namespace GymAct

open Coop Coop.Prog

variable {rt : Runtime MemoryReceiptLedger}

/-- The key and the environment of a materialization that succeeded. -/
def obtains : (Σ c : Call, c.Reply) → Option (String × Environment)
  | ⟨.materialize (.materialize key) _ _ _, .ok env⟩ => some (key, env)
  | _ => none

/-- How often a provider handed over an environment for a key. -/
def obtained (key : String) (log : KernelLog) : ℕ :=
  log.countP fun e => (obtains e).any fun x => x.1 == key

@[simp] theorem obtained_append (key : String) (log more : KernelLog) :
    obtained key (log ++ more) = obtained key log + obtained key more :=
  List.countP_append

/-- A call that is not a materialization. -/
def NotMaterialize : Call → Prop
  | .materialize .. => False
  | _ => True

theorem obtains_of_notMaterialize {c : Call} (h : NotMaterialize c) (r : c.Reply) :
    obtains ⟨c, r⟩ = none := by
  cases c <;> first | rfl | exact absurd h (by simp [NotMaterialize])

theorem notMaterialize_of_gate {c : Call} (h : Gate c) : NotMaterialize c := by
  cases c <;> simp_all [Gate, NotMaterialize]

theorem obtains_of_gates {more : KernelLog} (h : ∀ e ∈ more, Gate e.1) :
    ∀ e ∈ more, obtains e = none :=
  fun e he => obtains_of_notMaterialize (notMaterialize_of_gate (h e he)) e.2

theorem obtained_eq_zero {key : String} {more : KernelLog}
    (h : ∀ e ∈ more, obtains e = none) : obtained key more = 0 :=
  List.countP_eq_zero.mpr fun e he => by simp [h e he]

/-- A key materializes at most once, and not at all while the kernel has no record of it. -/
def MaterializedOnce (_ : MemoryReceiptLedger) (m : Dict MaterializationRecord)
    (log : KernelLog) : Prop :=
  ∀ key, obtained key log ≤ 1 ∧ (m key = none → obtained key log = 0)

theorem materializedFrame : Frame NotMaterialize (fun _ => True) MaterializedOnce where
  call L m log c r hc h key := by
    have : obtained key [⟨c, r⟩] = 0 := obtained_eq_zero (by simpa using obtains_of_notMaterialize hc r)
    rw [obtained_append, this]
    exact h key
  push L m log record _ h := h
  stamped _ _ _ _ := trivial

/-- An operation other than `materialize` materializes nothing. -/
theorem keeps_materializedOnce {A : (c : Call) → c.Reply → Prop} (hC : rt.canon.Total)
    (hL : UsesMemoryLedger rt) (hU : Function.Injective rt.uuid4) {op : Op}
    (hop : ∀ intent, op ≠ .materialize intent) :
    Keeps A (Framed rt MaterializedOnce) (op.program rt) := by
  have hF := materializedFrame
  have hlaw := hF.law (A := A) hL hU
  have hK := hF.lockedLaw (A := A) hL hU
  have hg : ∀ c, Gate c → NotMaterialize c := fun _ => notMaterialize_of_gate
  cases op with
  | registerProvider provider =>
    exact (hlaw.registerProvider (fun _ _ => Keeps.modify fun _ _ h => h) provider).map _
  | materialize intent => exact absurd rfl (hop intent)
  | capabilities episodeId => exact (hlaw.capabilities hg episodeId).map _
  | observe episodeId => exact ((hK _).observe hg).map _
  | read episodeId ref payload => exact (hlaw.read hg (fun _ _ _ _ => trivial) ref payload).map _
  | act intent =>
    exact ((hK _).act hC hg (fun _ _ _ => trivial) (fun _ => Keeps.modify fun _ _ h => h)
      fun _ _ => trivial).map _
  | verify episodeId expected =>
    exact ((hK _).verify hg (fun _ _ => trivial) (fun _ _ => trivial) expected).map _
  | checkpoint episodeId => exact ((hK _).checkpoint fun _ => trivial).map _
  | restore episodeId saved authorityRef =>
    exact ((hK _).restore hg (fun _ _ => trivial) (fun _ _ => trivial) saved authorityRef).map _
  | teardown episodeId authorityRef =>
    refine Keeps.map ((hK _).teardown hg (fun _ _ _ => trivial) fun st before a => ?_) _
    exact hlaw.teardownAdmitted (fun _ => trivial) (fun _ _ _ => trivial)
      (fun _ => Keeps.modify fun _ _ h => h) (Keeps.modify fun _ _ h => h) authorityRef st before a

/-! ## One materialization -/

/-- The ledger has room for the receipt of a materialization the kernel has no record
of. -/
structure MaterializeMeets (w : MemoryWorld) (intent : MaterializationIntent) : Prop where
  key : w.materializationIdempotency intent.idempotencyKey = none →
    w.ledger.byIdempotencyKey intent.idempotencyKey = none
  room : w.ledger.records.length ≤ 2 ^ 53 - 1

/-- A receipt of a materialization : what its append depends on. -/
structure MaterializeReceipt (intent : MaterializationIntent) (receipt : Receipt) : Prop where
  key : receipt.idempotencyKey = some intent.idempotencyKey
  effects : receipt.intendedEffects = []
  costs : receipt.costs = []

theorem append_materializeExit {w : MemoryWorld} {intent : MaterializationIntent}
    {receipt : Receipt} (hC : rt.canon.Total) (hU : Function.Injective rt.uuid4) (hw : Drawn rt w)
    (hkey : w.ledger.byIdempotencyKey intent.idempotencyKey = none)
    (hroom : w.ledger.records.length ≤ 2 ^ 53 - 1) (hx : MaterializeReceipt intent receipt)
    (e : LedgerError) :
    w.ledger.append rt.canon (receipt.stamped (rt.uuid4 w.supply) (rt.now w.supply)) ≠ .error e := by
  have hadm : w.ledger.keyAdmits (receipt.stamped (rt.uuid4 w.supply) (rt.now w.supply)) = true := by
    unfold MemoryReceiptLedger.keyAdmits
    rw [Receipt.stamped_idempotencyKey, hx.key]
    simp [hkey]
  have hdump : (receipt.stamped (rt.uuid4 w.supply) (rt.now w.supply)).modelDump.isCanonical =
      true := by
    refine Receipt.modelDump_isCanonical _ ?_ ?_
    · simp [hx.effects]
    · simp [hx.costs]
  obtain ⟨record, -, happ⟩ := MemoryReceiptLedger.append_ok hC (hw.fresh hU) hadm hdump hroom
  rw [happ]
  exact fun h => by cases h

/-- What `materialize` does with the receipt it exits with. -/
theorem post_materializationExit {A : (c : Call) → c.Reply → Prop} {w : MemoryWorld}
    {log : KernelLog} (hL : UsesMemoryLedger rt) (hU : Function.Injective rt.uuid4)
    {intent : MaterializationIntent} {intentDigest : String} {receipt : Receipt}
    {result : Receipt → MaterializationResult} {cache : Bool}
    {Q : Except Exc MaterializationResult → MemoryWorld → KernelLog → Prop} (hw : Drawn rt w)
    (hres : ∀ r, (result r).receipt = r)
    (herr : ∀ e, w.ledger.append rt.canon
        (receipt.stamped (rt.uuid4 w.supply) (rt.now w.supply)) = .error e →
      Q (.error (.ledger e)) w.drawn log)
    (hok : ∀ r w', Drawn rt w' → w'.episodes = w.episodes →
      w'.materializationIdempotency = (if cache then
        Function.update w.materializationIdempotency intent.idempotencyKey
          (some ⟨intentDigest, result r⟩)
        else w.materializationIdempotency) →
      Q (.ok (result r)) w' log) :
    post A Q (materializationExit rt intent intentDigest receipt result cache) w log := by
  rw [materializationExit_eq hres]
  refine post_stamp_record hL hU hw receipt herr fun rec' _ hd => ?_
  rw [post_bind, post_modify, post_onOk, post_pure]
  cases cache
  · exact hok rec'.receipt _ hd rfl rfl
  · exact hok rec'.receipt _ hd rfl rfl

/-- The environment of every materialization in `more` is reachable through the returned
episode, or was torn down afterwards. -/
def Settled (r : Except Exc MaterializationResult) (w : MemoryWorld) (more : KernelLog) : Prop :=
  ∀ pre e rest key env, more = pre ++ e :: rest → obtains e = some (key, env) →
    (∃ result episode, r = .ok result ∧ result.accepted = true ∧ result.episode = some episode ∧
      w.episodes episode.episodeId = some ⟨episode, env⟩) ∨
    ∃ reply, (⟨.teardown (.materialize key) env, reply⟩ : Σ c : Call, c.Reply) ∈ rest

theorem settled_of_none {r : Except Exc MaterializationResult} {w : MemoryWorld}
    {more : KernelLog} (h : ∀ e ∈ more, obtains e = none) : Settled r w more := by
  intro pre e rest key env he ho
  rw [h e (by simp [he])] at ho
  cases ho

/-- One materialization among calls that are none. -/
theorem settled_of_single {r : Except Exc MaterializationResult} {w : MemoryWorld}
    {more more' : KernelLog} {m : Σ c : Call, c.Reply} {key : String} {env : Environment}
    (hm : obtains m = some (key, env)) (hmore : ∀ e ∈ more, obtains e = none)
    (hmore' : ∀ e ∈ more', obtains e = none)
    (h : (∃ result episode, r = .ok result ∧ result.accepted = true ∧
        result.episode = some episode ∧ w.episodes episode.episodeId = some ⟨episode, env⟩) ∨
      ∃ reply, (⟨.teardown (.materialize key) env, reply⟩ : Σ c : Call, c.Reply) ∈ more') :
    Settled r w (more ++ m :: more') := by
  intro pre e rest key' env' he ho
  have hnot : ∀ x : Σ c : Call, c.Reply, obtains x = none → x ≠ e := by
    rintro x hx rfl
    rw [hx] at ho
    cases ho
  have hone : e = m ∧ rest = more' := by
    rcases List.append_eq_append_iff.mp he with ⟨a, hp, hr⟩ | ⟨a, hp, hr⟩
    · cases a with
      | nil => exact ⟨(List.cons.inj hr).1.symm, (List.cons.inj hr).2.symm⟩
      | cons x a =>
        obtain ⟨-, hr⟩ := List.cons.inj hr
        exact absurd rfl (hnot e (hmore' e (by simp [hr])))
    · cases a with
      | nil => exact ⟨(List.cons.inj hr).1, (List.cons.inj hr).2⟩
      | cons x a =>
        obtain ⟨rfl, -⟩ := List.cons.inj hr
        exact absurd rfl (hnot e (hmore e (by simp [hp])))
  obtain ⟨rfl, rfl⟩ := hone
  rw [hm] at ho
  obtain ⟨rfl, rfl⟩ : key = key' ∧ env = env' := by simpa using ho
  exact h

/-- What `materialize` owes. -/
def Materialized (rt : Runtime MemoryReceiptLedger) (before : KernelLog)
    (r : Except Exc MaterializationResult) (w : MemoryWorld) (log : KernelLog) : Prop :=
  Framed rt MaterializedOnce w log ∧ ∃ more, log = before ++ more ∧ Settled r w more

section Materialize

variable {A : (c : Call) → c.Reply → Prop} {w : MemoryWorld} {log : KernelLog}
  {intent : MaterializationIntent} {intentDigest : String}

/-- Leaving without a materialization. -/
theorem materialized_of_none {w' : MemoryWorld} {more : KernelLog}
    {r : Except Exc MaterializationResult} (h : MaterializedOnce w.ledger
      w.materializationIdempotency log) (hd : Drawn rt w')
    (hm : ∀ key, w'.materializationIdempotency key = none →
      w.materializationIdempotency key = none)
    (hmore : ∀ e ∈ more, obtains e = none) : Materialized rt log r w' (log ++ more) := by
  refine ⟨⟨hd, fun key => ?_⟩, more, rfl, settled_of_none hmore⟩
  rw [obtained_append, obtained_eq_zero hmore]
  exact ⟨(h key).1, fun hk => (h key).2 (hm key hk)⟩

/-- Leaving with one materialization that is cached. -/
theorem materialized_of_single {w' : MemoryWorld} {more more' : KernelLog}
    {m : Σ c : Call, c.Reply} {env : Environment} {entry : MaterializationRecord}
    {r : Except Exc MaterializationResult}
    (h : MaterializedOnce w.ledger w.materializationIdempotency log)
    (hnone : w.materializationIdempotency intent.idempotencyKey = none) (hd : Drawn rt w')
    (hcache : w'.materializationIdempotency =
      Function.update w.materializationIdempotency intent.idempotencyKey (some entry))
    (hm : obtains m = some (intent.idempotencyKey, env)) (hmore : ∀ e ∈ more, obtains e = none)
    (hmore' : ∀ e ∈ more', obtains e = none)
    (hend : (∃ result episode, r = .ok result ∧ result.accepted = true ∧
        result.episode = some episode ∧ w'.episodes episode.episodeId = some ⟨episode, env⟩) ∨
      ∃ reply, (⟨.teardown (.materialize intent.idempotencyKey) env, reply⟩ :
        Σ c : Call, c.Reply) ∈ more') :
    Materialized rt log r w' (log ++ (more ++ m :: more')) := by
  refine ⟨⟨hd, fun key => ?_⟩, _, rfl, settled_of_single hm hmore hmore' hend⟩
  have hone : obtained key (m :: more') = if intent.idempotencyKey = key then 1 else 0 := by
    have hz : obtained key more' = 0 := obtained_eq_zero hmore'
    unfold obtained at hz ⊢
    rw [List.countP_cons, hz, hm]
    by_cases hk : intent.idempotencyKey = key <;> simp [hk]
  rw [obtained_append, obtained_append, obtained_eq_zero hmore, hone, hcache]
  by_cases hk : intent.idempotencyKey = key
  · subst hk
    have := (h _).2 hnone
    simp [this]
  · have := h key
    simpa [hk, Function.update_of_ne (Ne.symm hk)] using this

/-- The part of `materialize` after the provider handed over an environment. -/
theorem post_admitEnvironment (hC : rt.canon.Total) (hL : UsesMemoryLedger rt)
    (hU : Function.Injective rt.uuid4) {w₀ : MemoryWorld} {m : Σ c : Call, c.Reply}
    {more : KernelLog} {env : Environment} (episodeId : String) (authority : AuthorityDecision)
    (h : MaterializedOnce w₀.ledger w₀.materializationIdempotency log)
    (hw : w.materializationIdempotency = w₀.materializationIdempotency ∧ Drawn rt w ∧
      w.ledger.byIdempotencyKey intent.idempotencyKey = none ∧
      w.ledger.records.length ≤ 2 ^ 53 - 1)
    (hnone : w₀.materializationIdempotency intent.idempotencyKey = none)
    (hm : obtains m = some (intent.idempotencyKey, env)) (hmore : ∀ e ∈ more, obtains e = none) :
    post A (Materialized rt log) (admitEnvironment rt intent intentDigest episodeId authority env)
      w (log ++ (more ++ [m])) := by
  obtain ⟨hwm, hd, hkey, hroom⟩ := hw
  unfold admitEnvironment
  rw [post_bind, post_attempt]
  -- the capabilities and the first state are gates, and what passes them can be digested
  refine (gated_environmentAdmission rt (fun _ => trivial) (fun _ => trivial) env).post
    fun x more' (hmore' : ∀ e ∈ more', Gate e.1) hx => ?_
  have hgates : ∀ e ∈ more', obtains e = none := obtains_of_gates hmore'
  have hlog : ∀ more'' : KernelLog, log ++ (more ++ [m]) ++ more'' = log ++ (more ++ m :: more'') :=
    fun _ => by simp
  cases x with
  | error exc =>
    obtain ⟨d, hdig⟩ := errorDigest_eq hC exc
    simp only [post_onOk, post_bind, post_attempt, hdig, post_pure]
    intro reply _
    have htear : ∀ e ∈ more' ++ [(⟨.teardown (.materialize intent.idempotencyKey) env, reply⟩ :
        Σ c : Call, c.Reply)], obtains e = none := by
      intro e he
      rcases List.mem_append.mp he with he | he
      · exact hgates e he
      · rw [List.mem_singleton.mp he]
        rfl
    refine post_materializationExit hL hU hd (fun _ => rfl)
      (fun e he => absurd he (append_materializeExit hC hU hd hkey hroom ⟨rfl, rfl, rfl⟩ e))
      fun r w' hd' _ hc => ?_
    rw [List.append_assoc (log ++ (more ++ [m])), hlog]
    refine materialized_of_single h hnone hd' (by rw [hc, hwm]; rfl) hm hmore htear (Or.inr ?_)
    exact ⟨reply, by simp⟩
  | ok v =>
    obtain ⟨d, hdig⟩ := digest_of_ensureState (hx v rfl)
    simp only [post_onOk, registerEpisode, post_bind, post_modify, digest, hdig, Except.mapError,
      post_lift]
    refine post_materializationExit hL hU hd (fun _ => rfl)
      (fun e he => absurd he (append_materializeExit hC hU hd hkey hroom ⟨rfl, rfl, rfl⟩ e))
      fun r w' hd' hep hc => ?_
    rw [hlog]
    refine materialized_of_single h hnone hd' (by rw [hc, ← hwm]; rfl) hm hmore hgates (Or.inl ?_)
    exact ⟨_, _, rfl, rfl, rfl, by rw [hep]; exact Function.update_self ..⟩

/-- The tails of `materialize` before the provider is asked. -/
inductive MaterializeTail (rt : Runtime MemoryReceiptLedger) (intent : MaterializationIntent)
    (intentDigest episodeId : String) : M MemoryReceiptLedger MaterializationResult → Prop
  | raise (e : Exc) : MaterializeTail rt intent intentDigest episodeId (raise e)
  | exit {receipt : Receipt} {result : Receipt → MaterializationResult}
      (hres : ∀ r, (result r).receipt = r) :
      MaterializeTail rt intent intentDigest episodeId
        (materializationExit rt intent intentDigest receipt result)
  | proceed (authority : AuthorityDecision) :
      MaterializeTail rt intent intentDigest episodeId
        (materializeAdmitted rt intent intentDigest episodeId authority)

theorem leads_materializeAuthorized (episodeId : String) (provider : Provider) :
    Leads A Gate (MaterializeTail rt intent intentDigest episodeId)
      (materializeAuthorized rt intent intentDigest episodeId provider) := by
  refine (gated_authorityDecision rt (fun _ => trivial) _ _).attempt_bind fun x _ => ?_
  split
  · exact .tail (.exit fun _ => rfl)
  · exact .tail (.raise _)
  · split
    · exact .tail (.proceed _)
    · exact .tail (.exit fun _ => rfl)

/-- One call of `materialize` with room in the ledger. -/
theorem post_materialize (hC : rt.canon.Total) (hL : UsesMemoryLedger rt)
    (hU : Function.Injective rt.uuid4) (hm : MaterializeMeets w intent)
    (h : Framed rt MaterializedOnce w log) :
    post A (Materialized rt log) (materialize rt intent) w log := by
  obtain ⟨hd, hF⟩ := h
  -- without a materialization, whatever is cached
  have hquiet : ∀ (w₁ : MemoryWorld) {w' : MemoryWorld} {r} (more : KernelLog),
      (∀ e ∈ more, obtains e = none) → Drawn rt w' →
      w₁.materializationIdempotency = w.materializationIdempotency →
      (w'.materializationIdempotency = w₁.materializationIdempotency ∨ ∃ entry,
        w'.materializationIdempotency =
          Function.update w₁.materializationIdempotency intent.idempotencyKey (some entry)) →
      Materialized rt log r w' (log ++ more) := by
    intro w₁ w' r more hmore hd' h₁ hc
    refine materialized_of_none hF hd' (fun key hk => ?_) hmore
    rcases hc with hc | ⟨entry, hc⟩
    · rwa [hc, h₁] at hk
    · by_cases hkey : key = intent.idempotencyKey
      · subst hkey
        rw [hc, Function.update_self] at hk
        cases hk
      · rwa [hc, Function.update_of_ne hkey, h₁] at hk
  have hexit : ∀ {d receipt result cache} (w₁ : MemoryWorld) (more : KernelLog),
      (∀ e ∈ more, obtains e = none) → Drawn rt w₁ →
      w₁.materializationIdempotency = w.materializationIdempotency →
      (∀ r, (result r).receipt = r) →
      post A (Materialized rt log) (materializationExit rt intent d receipt result cache) w₁
        (log ++ more) := by
    intro d receipt result cache w₁ more hmore hd₁ h₁ hres
    refine post_materializationExit hL hU hd₁ hres
      (fun e _ => hquiet w₁ more hmore hd₁.draw h₁ (Or.inl rfl)) fun r w' hd' _ hc => ?_
    refine hquiet w₁ more hmore hd' h₁ ?_
    cases cache
    · exact Or.inl hc
    · exact Or.inr ⟨_, hc⟩
  unfold materialize
  rw [post_bind]
  cases hdig : rt.canon.digest intent.modelDump with
  | error e =>
    simpa [digest, hdig, Except.mapError] using
      hquiet w (r := .error (.canonicalization e)) [] (by simp) hd rfl (Or.inl rfl)
  | ok intentDigest =>
    simp only [digest, hdig, Except.mapError, post_lift, post_onOk, post_withLock,
      materializeLocked, post_bind, post_getState]
    cases hnone : w.materializationIdempotency intent.idempotencyKey with
    | some cached =>
      dsimp only
      split
      · simpa using hquiet w (r := .ok cached.result) [] (by simp) hd rfl (Or.inl rfl)
      · simpa [materializationRefusal] using hexit w [] (by simp) hd rfl (fun _ => rfl)
    | none =>
      simp only [uuid4, post_bind, post_getState, post_onOk, post_modify, post_pure,
        materializeFresh]
      split
      · simpa [materializationRefusal] using
          hexit w.drawn [] (by simp) hd.draw rfl (fun _ => rfl)
      case h_2 e _ _ =>
        simpa using hquiet w (r := .error e) [] (by simp) hd.draw rfl
          (Or.inl rfl)
      simp only [post_bind, post_getState, post_onOk]
      split
      · simpa [materializationRefusal] using
          hexit w.drawn [] (by simp) hd.draw rfl (fun _ => rfl)
      case h_2 provider _ =>
      refine (leads_materializeAuthorized (rt.uuid4 w.supply) provider).post
        fun q more hmore ht => ?_
      have hgates := obtains_of_gates hmore
      cases ht with
      | raise e => exact hquiet w more hgates hd.draw rfl (Or.inl rfl)
      | exit hres => exact hexit w.drawn more hgates hd.draw rfl hres
      | proceed authority =>
        unfold materializeAdmitted
        rw [post_bind, post_attempt, kernel_post_bounded]
        intro reply _
        rcases reply with failure | env
        · -- no environment : nothing to orphan
          obtain ⟨exc, hexc⟩ : ∃ exc, (settle (.boundaryBlocked "MATERIALIZATION_TIMEOUT")
              (.error failure) : Except Exc Environment) = .error exc := by
            cases failure <;> exact ⟨_, rfl⟩
          obtain ⟨dig, hdig'⟩ := errorDigest_eq hC exc
          rw [hexc]
          simp only [post_onOk, post_bind, hdig', post_pure]
          rw [List.append_assoc]
          refine hexit w.drawn _ (fun e he => ?_) hd.draw rfl fun _ => rfl
          rcases List.mem_append.mp he with he | he
          · exact hgates e he
          · rw [List.mem_singleton.mp he]
            rfl
        · simp only [settle, post_onOk]
          rw [List.append_assoc]
          exact post_admitEnvironment hC hL hU _ _ hF
            ⟨rfl, hd.draw, hm.key hnone, hm.room⟩ hnone rfl hgates

end Materialize

/-! ## Sequences -/

/-- Every `materialize` of a sequence finds room in the ledger. -/
def MaterializesMeet (rt : Runtime MemoryReceiptLedger) (ω : KernelOracle) (ops : List Op)
    (x : MemoryWorld × KernelLog) : Prop :=
  ∀ pre intent post, ops = pre ++ .materialize intent :: post →
    MaterializeMeets (runOps rt ω pre x).1 intent

theorem runOps_materializedOnce (hC : rt.canon.Total) (hL : UsesMemoryLedger rt)
    (hU : Function.Injective rt.uuid4) {ω : KernelOracle} :
    ∀ (ops : List Op) (x : MemoryWorld × KernelLog), Framed rt MaterializedOnce x.1 x.2 →
      MaterializesMeet rt ω ops x →
      Framed rt MaterializedOnce (runOps rt ω ops x).1 (runOps rt ω ops x).2
  | [], _, h, _ => h
  | op :: ops, x, h, hm => by
    refine runOps_materializedOnce hC hL hU ops _ ?_ fun pre intent post he =>
      hm (op :: pre) intent post (by rw [he, List.cons_append])
    by_cases hop : ∃ intent, op = .materialize intent
    · obtain ⟨intent, rfl⟩ := hop
      have hpost := post_materialize (A := fun _ _ => True) hC hL hU (hm [] intent ops rfl) h
      exact exec_of_post (Q := fun _ w log => Framed rt MaterializedOnce w log)
        (fun _ _ => trivial) _ ((post_map _ _).mpr (post_mono (fun _ _ _ h => h.1) _ hpost))
    · exact exec_of_post (A := fun _ _ => True) (fun _ _ => trivial) _
        (keeps_materializedOnce hC hL hU (fun intent he => hop ⟨intent, he⟩) _ _ h)

/-- A teardown of an environment. -/
def Call.isTeardown : Call → Bool
  | .teardown _ _ => true
  | _ => false

end GymAct
