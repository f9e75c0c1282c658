import GymAct.KernelRules

/-!
# Sequences of kernel operations over the memory ledger

A client that calls one operation after another, on any episodes and with any keys
(`runOps`). The kernel caches by (episode, key) and by materialization key, while the
ledger's key index is one for all episodes and operations, so a receipt can be refused
after its effect. What an operation other than the one in question leaves alone is
said once, for every such property (`Frame`, `Frame.program`).

`act_receipted` : while the ledger's key index agrees with the episode and capability of
every actuation, every actuation of the environment is followed by the return of a
result whose receipt is in the ledger, and the ledger counts the actuations.
`act_unreceipted` is a run that leaves an actuation without a receipt.
-/

namespace GymAct

open Coop Coop.Prog

/-- The oracle of a kernel run. -/
abbrev KernelOracle := Oracle (kernelSig MemoryReceiptLedger)

/-- The log of a kernel run. -/
abbrev KernelLog := Log (kernelSig MemoryReceiptLedger)

/-- A world whose ledger is a `MemoryReceiptLedger`. -/
abbrev MemoryWorld := World MemoryReceiptLedger

/-- The runtime's ledger is the `MemoryReceiptLedger` of `evidence.py`. -/
def UsesMemoryLedger (rt : Runtime MemoryReceiptLedger) : Prop :=
  ∀ L receipt, rt.append L receipt = (L.append rt.canon receipt).map Prod.fst

variable (rt : Runtime MemoryReceiptLedger)

/-- Call the operations in turn. An operation that raises does not stop the client. -/
def runOps (ω : KernelOracle) : List Op → MemoryWorld × KernelLog → MemoryWorld × KernelLog
  | [], x => x
  | op :: ops, x => runOps ω ops (exec ω (op.program rt) x.1 x.2).2

theorem runOps_append (ω : KernelOracle) :
    ∀ (pre post : List Op) (x : MemoryWorld × KernelLog),
      runOps rt ω (pre ++ post) x = runOps rt ω post (runOps rt ω pre x)
  | [], _, _ => rfl
  | op :: pre, post, x => runOps_append ω pre post (exec ω (op.program rt) x.1 x.2).2

/-- The receipt ids in the ledger were drawn from the supply. -/
def Drawn (w : MemoryWorld) : Prop :=
  ∀ id record, w.ledger.byReceipt id = some record → ∃ n < w.supply, id = rt.uuid4 n

variable {rt}

/-- An identifier not drawn yet names no receipt. -/
theorem Drawn.fresh {w : MemoryWorld} (h : Drawn rt w) (hU : Function.Injective rt.uuid4) :
    w.ledger.byReceipt (rt.uuid4 w.supply) = none := by
  cases hr : w.ledger.byReceipt (rt.uuid4 w.supply) with
  | none => rfl
  | some record =>
    obtain ⟨n, hn, he⟩ := h _ _ hr
    exact absurd (hU he) (by omega)

theorem Drawn.push {w : MemoryWorld} (h : Drawn rt w) {record : EvidenceRecord}
    (hid : ∃ n < w.supply, record.receipt.receiptId = rt.uuid4 n) :
    Drawn rt (w.recorded (w.ledger.push record) record.receipt) := by
  intro id r hr
  change Function.update w.ledger.byReceipt record.receipt.receiptId (some record) id = some r at hr
  by_cases he : id = record.receipt.receiptId
  · exact he ▸ hid
  · exact h id r (by rwa [Function.update_of_ne he] at hr)

theorem Drawn.draw {w : MemoryWorld} (h : Drawn rt w) : Drawn rt w.drawn := by
  intro id r hr
  obtain ⟨n, hn, he⟩ := h id r hr
  exact ⟨n, Nat.lt_succ_of_lt hn, he⟩

section Record

variable {A : (c : Call) → c.Reply → Prop} {w : MemoryWorld} {log : KernelLog}

/-- What happens to a receipt an operation constructs and records : an error of the
ledger, or one more record. -/
theorem post_stamp_record (hL : UsesMemoryLedger rt) (hU : Function.Injective rt.uuid4) {β : Type}
    {f : Receipt → M MemoryReceiptLedger β} {Q : Except Exc β → MemoryWorld → KernelLog → Prop}
    (hw : Drawn rt w) (receipt : Receipt)
    (herr : ∀ e, w.ledger.append rt.canon
        (receipt.stamped (rt.uuid4 w.supply) (rt.now w.supply)) = .error e →
      Q (.error (.ledger e)) w.drawn log)
    (hok : ∀ record,
      record.receipt = receipt.stamped (rt.uuid4 w.supply) (rt.now w.supply) →
      Drawn rt (w.drawn.recorded (w.ledger.push record) record.receipt) →
      post A Q (f record.receipt) (w.drawn.recorded (w.ledger.push record) record.receipt) log) :
    post A Q (stamp rt receipt >>= fun r => record rt r >>= fun _ => f r) w log := by
  rw [post_bind, post_stamp, post_onOk, post_bind, post_record]
  refine ⟨fun e he => herr e ?_, fun L hap => ?_⟩
  · rw [hL] at he
    change (w.ledger.append rt.canon _).map Prod.fst = .error e at he
    cases ha : w.ledger.append rt.canon
        (receipt.stamped (rt.uuid4 w.supply) (rt.now w.supply)) with
    | error e' => simpa [ha, Except.map] using he
    | ok x => simp [ha, Except.map] at he
  · rw [hL] at hap
    change (w.ledger.append rt.canon _).map Prod.fst = .ok L at hap
    cases ha : w.ledger.append rt.canon
        (receipt.stamped (rt.uuid4 w.supply) (rt.now w.supply)) with
    | error e => simp [ha, Except.map] at hap
    | ok x =>
      obtain ⟨L', record⟩ := x
      obtain rfl : L' = L := by simpa [ha, Except.map] using hap
      rcases MemoryReceiptLedger.append_cases ha with ⟨-, hsome, -⟩ | ⟨-, -, hrec, rfl⟩
      · rw [Receipt.stamped_receiptId, hw.fresh hU] at hsome
        cases hsome
      · have h := hok record hrec
          (hw.draw.push ⟨w.supply, Nat.lt_succ_self _, by rw [hrec]; rfl⟩)
        rw [hrec] at h
        exact h

end Record

/-! ## What operations leave alone -/

/-- A property of the ledger, the materialization cache and the log that quiet calls and
plain receipts leave alone. -/
structure Frame (quiet : Call → Prop) (plain : Receipt → Prop)
    (F : MemoryReceiptLedger → Dict MaterializationRecord → KernelLog → Prop) : Prop where
  call : ∀ L m log c r, quiet c → F L m log → F L m (log ++ [⟨c, r⟩])
  push : ∀ L m log record, plain record.receipt → F L m log → F (L.push record) m log
  stamped : ∀ r i t, plain r → plain (r.stamped i t)

/-- The property of a world, next to the supply. -/
def Framed (rt : Runtime MemoryReceiptLedger)
    (F : MemoryReceiptLedger → Dict MaterializationRecord → KernelLog → Prop)
    (w : MemoryWorld) (log : KernelLog) : Prop :=
  Drawn rt w ∧ F w.ledger w.materializationIdempotency log

section Frame

variable {A : (c : Call) → c.Reply → Prop} {quiet : Call → Prop} {plain : Receipt → Prop}
  {F : MemoryReceiptLedger → Dict MaterializationRecord → KernelLog → Prop}

/-- Constructing and recording a plain receipt. -/
theorem Frame.record (hF : Frame quiet plain F) (hL : UsesMemoryLedger rt)
    (hU : Function.Injective rt.uuid4) {β : Type} {f : Receipt → M MemoryReceiptLedger β}
    {receipt : Receipt} (hp : plain receipt) (hf : ∀ r, Keeps A (Framed rt F) (f r)) :
    Keeps A (Framed rt F) (stamp rt receipt >>= fun r => GymAct.record rt r >>= fun _ => f r) := by
  intro w log h
  refine post_stamp_record hL hU h.1 receipt (fun e _ => ⟨h.1.draw, h.2⟩) fun rec' hrec hd => ?_
  refine hf _ _ _ ⟨hd, hF.push _ _ _ _ ?_ h.2⟩
  rw [hrec]
  exact hF.stamped _ _ _ hp

/-- Keeping a framed property is a law of operations. -/
theorem Frame.law (hF : Frame quiet plain F) (hL : UsesMemoryLedger rt)
    (hU : Function.Injective rt.uuid4) :
    KernelLaw rt A quiet plain fun _ p => Keeps A (Framed rt F) p where
  ret r := Keeps.lift (A := A) r
  bindE hp hf := hp.bindE hf
  getState := Keeps.getState (A := A)
  leads hp ht := hp.keeps (fun _ _ c r hc h => ⟨h.1, hF.call _ _ _ c r hc h.2⟩) ht
  idle := Keeps.modify fun _ _ h => h
  drawn := Keeps.modify fun _ _ h => ⟨h.1.draw, h.2⟩
  verified _ := Keeps.modify fun _ _ h => h
  recorded hp hf := hF.record hL hU hp hf

theorem Frame.lockedLaw (hF : Frame quiet plain F) (hL : UsesMemoryLedger rt)
    (hU : Function.Injective rt.uuid4) (l : LockId) :
    LockedLaw rt A quiet quiet plain (fun _ p => Keeps A (Framed rt F) p) l
      fun _ p => Keeps A (Framed rt F) p :=
  ⟨hF.law hL hU, hF.law hL hU, fun h => h.withLock l⟩

end Frame

/-! ## Every actuation is receipted -/

/-- An actuation of an environment by `act`. -/
def Call.isAct : Call → Bool
  | .actuate (.act _ _) _ _ _ => true
  | _ => false

/-- How often `act` actuated an environment. -/
def acted (log : KernelLog) : ℕ := log.countP fun e => Call.isAct e.1

/-- How many receipts of the ledger say an environment was asked to act. -/
def receiptedActs (L : MemoryReceiptLedger) : ℕ := L.records.countP fun r => r.receipt.attempted

/-- The ledger and the log agree. -/
def ActsCounted (L : MemoryReceiptLedger) (_ : Dict MaterializationRecord) (log : KernelLog) :
    Prop :=
  receiptedActs L = acted log

@[simp] theorem acted_append (log more : KernelLog) : acted (log ++ more) = acted log + acted more :=
  List.countP_append

theorem acted_of_gates {more : KernelLog} (h : ∀ e ∈ more, Gate e.1) : acted more = 0 := by
  refine List.countP_eq_zero.mpr fun e he => ?_
  have hg := h e he
  rcases e with ⟨c, r⟩
  cases c <;> simp_all [Gate, Call.isAct]

theorem acted_actuated (log : KernelLog) {more more' : KernelLog} {e : Σ c : Call, c.Reply}
    (he : e.1.isAct = true) (hmore : ∀ e ∈ more, Gate e.1) (hmore' : ∀ e ∈ more', Gate e.1) :
    acted (log ++ more ++ [e] ++ more') = acted log + 1 := by
  rw [acted_append, acted_append, acted_append, acted_of_gates hmore, acted_of_gates hmore']
  simp [acted, he]

theorem receiptedActs_push (L : MemoryReceiptLedger) (record : EvidenceRecord) :
    receiptedActs (L.push record) = receiptedActs L + if record.receipt.attempted then 1 else 0 := by
  simp [receiptedActs, List.countP_append, List.countP_cons]

theorem attempted_stamped (r : Receipt) (i t : String) : (r.stamped i t).attempted = r.attempted :=
  rfl

theorem actsFrame : Frame (fun c => c.isAct = false) (fun r => r.attempted = false) ActsCounted where
  call L m log c r hc h := by simpa [ActsCounted, acted, hc] using h
  push L m log record hp h := by simpa [ActsCounted, receiptedActs_push, hp] using h
  stamped r i t h := h

theorem isAct_of_gate {c : Call} (h : Gate c) : c.isAct = false := by
  cases c <;> simp_all [Gate, Call.isAct]

theorem isAct_of_otherCall {c : Call} (h : OtherCall c) : c.isAct = false := by
  cases c with
  | actuate site env capability payload => cases site <;> trivial
  | _ => rfl

theorem attempted_of_operation {r : Receipt} (h : r.operation ≠ .act) : r.attempted = false := by
  simp [Receipt.attempted, h]

/-- What `act` does with the receipt it exits with. -/
theorem post_actuationExit {A : (c : Call) → c.Reply → Prop} {w : MemoryWorld} {log : KernelLog}
    (hL : UsesMemoryLedger rt) (hU : Function.Injective rt.uuid4) {intent : ActuationIntent}
    {intentDigest : String} {receipt : Receipt} {result : Receipt → ActuationResult} {cache : Bool}
    {Q : Except Exc ActuationResult → MemoryWorld → KernelLog → Prop} (hw : Drawn rt w)
    (hres : ∀ r, (result r).receipt = r)
    (herr : ∀ e, w.ledger.append rt.canon
        (receipt.stamped (rt.uuid4 w.supply) (rt.now w.supply)) = .error e →
      Q (.error (.ledger e)) w.drawn log)
    (hok : ∀ record w',
      record.receipt = receipt.stamped (rt.uuid4 w.supply) (rt.now w.supply) → Drawn rt w' →
      w'.ledger = w.ledger.push record →
      w'.materializationIdempotency = w.materializationIdempotency →
      Q (.ok (result record.receipt)) w' log) :
    post A Q (actuationExit rt intent intentDigest receipt result cache) w log := by
  rw [actuationExit_eq hres]
  refine post_stamp_record hL hU hw receipt herr fun rec' hrec hd => ?_
  rw [post_bind, post_modify, post_onOk, post_pure]
  cases cache
  · exact hok rec' _ hrec hd rfl rfl
  · exact hok rec' _ hrec hd rfl rfl

/-- The costs an environment declares are numbers. -/
def FiniteCosts : (c : Call) → c.Reply → Prop
  | .capabilities _, .ok cs => ∀ c ∈ cs, ∀ d ∈ c.costs, d.modelDump.isCanonical = true
  | _, _ => True

/-- The ledger has room for the receipt of an actuation : its key index has nothing else
under the key, and the next sequence number fits a double. -/
structure ActMeets (w : MemoryWorld) (intent : ActuationIntent) : Prop where
  key : ∀ prior, w.ledger.byIdempotencyKey intent.idempotencyKey = some prior →
    prior.receipt.episodeId = intent.episodeId ∧
      prior.receipt.capabilityRef = some intent.capability
  room : w.ledger.records.length ≤ 2 ^ 53 - 1

/-- A receipt of `act` is appended when the ledger has room for it. -/
theorem append_actExit {w : MemoryWorld} {intent : ActuationIntent} {attempt : Bool}
    {receipt : Receipt} {result : Receipt → ActuationResult} (hC : rt.canon.Total)
    (hU : Function.Injective rt.uuid4) (hw : Drawn rt w) (hm : ActMeets w intent)
    (hx : ActExit intent attempt receipt result)
    (hcosts : ∀ d ∈ receipt.costs, d.modelDump.isCanonical = true) (e : LedgerError) :
    w.ledger.append rt.canon (receipt.stamped (rt.uuid4 w.supply) (rt.now w.supply)) ≠ .error e := by
  have hkey : w.ledger.keyAdmits (receipt.stamped (rt.uuid4 w.supply) (rt.now w.supply)) = true := by
    unfold MemoryReceiptLedger.keyAdmits
    rw [Receipt.stamped_idempotencyKey, hx.key]
    cases hk : w.ledger.byIdempotencyKey intent.idempotencyKey with
    | none => simp [hk]
    | some prior =>
      obtain ⟨he, hc⟩ := hm.key prior hk
      simp [hk, sameIntent_iff, he, hc, hx.episode, hx.capability]
  have hdump : (receipt.stamped (rt.uuid4 w.supply) (rt.now w.supply)).modelDump.isCanonical =
      true := by
    refine Receipt.modelDump_isCanonical _ ?_ hcosts
    simp [hx.effects]
  obtain ⟨record, -, happ⟩ := MemoryReceiptLedger.append_ok hC (hw.fresh hU) hkey hdump hm.room
  rw [happ]
  exact fun h => by cases h

/-- What `act` owes : the counts still agree, and if the environment was actuated the
result is returned and its receipt is in the ledger. -/
def ActReceipted (rt : Runtime MemoryReceiptLedger) (before : KernelLog)
    (r : Except Exc ActuationResult) (w : MemoryWorld) (log : KernelLog) : Prop :=
  Framed rt ActsCounted w log ∧
    (acted log ≠ acted before →
      ∃ result, r = .ok result ∧ ∃ record ∈ w.ledger.records, record.receipt = result.receipt)

/-- One call of `act` with room in the ledger. -/
theorem post_act (hC : rt.canon.Total) (hL : UsesMemoryLedger rt)
    (hU : Function.Injective rt.uuid4) {w : MemoryWorld} {log : KernelLog}
    {intent : ActuationIntent} (hm : ActMeets w intent) (h : Framed rt ActsCounted w log) :
    post FiniteCosts (ActReceipted rt log) (act rt intent) w log := by
  -- nothing was actuated as long as only gates were asked
  have hquiet : ∀ r w' (more : KernelLog), (∀ e ∈ more, Gate e.1) → Drawn rt w' →
      receiptedActs w'.ledger = receiptedActs w.ledger → ActReceipted rt log r w' (log ++ more) := by
    intro r w' more hmore hd hr
    have hz := acted_of_gates hmore
    refine ⟨⟨hd, ?_⟩, fun hne => absurd (by simp [hz]) hne⟩
    have := h.2
    simp only [ActsCounted, acted_append, hz] at this ⊢
    omega
  -- an exit without an actuation
  have hrefuse : ∀ {intentDigest receipt result cache} (more : KernelLog),
      (∀ e ∈ more, Gate e.1) → ActExit intent false receipt result →
      post FiniteCosts (ActReceipted rt log)
        (actuationExit rt intent intentDigest receipt result cache) w (log ++ more) := by
    intro intentDigest receipt result cache more hmore hx
    refine post_actuationExit hL hU h.1 hx.receipt_eq
      (fun e _ => hquiet _ _ more hmore h.1.draw rfl) fun record w' hrec hd hl _ => ?_
    refine hquiet _ _ more hmore hd ?_
    rw [hl, receiptedActs_push, hrec, attempted_stamped, hx.attempted]
    rfl
  unfold act GymAct.state
  simp only [post_bind, post_getState, post_onOk]
  cases w.episodes intent.episodeId with
  | none => simpa using hquiet _ _ [] (by simp) h.1 rfl
  | some st =>
    simp only [post_pure, post_onOk]
    cases hd : rt.canon.digest intent.modelDump with
    | error e =>
      simpa [digest, hd, Except.mapError] using hquiet _ _ [] (by simp) h.1 rfl
    | ok intentDigest =>
      simp only [digest, hd, Except.mapError, post_lift, post_onOk, post_withLock, actLocked,
        post_bind, post_getState]
      cases w.actuationIdempotency (actKey intent) with
      | some cached =>
        dsimp only
        split
        · simpa using hquiet (.ok cached.result) w [] (by simp) h.1 rfl
        · refine (leads_actConflict rt intent intentDigest st).post fun q more hmore ht => ?_
          cases ht with
          | raise e => exact hquiet _ _ more hmore h.1 rfl
          | exit hx _ _ _ => exact hrefuse more hmore hx
      | none =>
        refine (leads_actFresh rt intent intentDigest st).post fun q more hmore ht => ?_
        cases ht with
        | raise e => exact hquiet _ _ more hmore h.1 rfl
        | exit hx _ => exact hrefuse more hmore hx
        | @proceed before capability authority hadm =>
          obtain ⟨cs, hcs, hnamed⟩ := hadm.declared
          obtain ⟨k, hk, hlead⟩ := leads_actReceipted (A := FiniteCosts) rt intent intentDigest st hC
            before authority (capabilityNamed_iri hnamed)
          rw [hk]
          intro r _
          refine (hlead r).post fun q more' hmore' ht => ?_
          cases ht with
          | @exit receipt result hx hcosts =>
            have hfinite : ∀ d ∈ receipt.costs, d.modelDump.isCanonical = true := by
              have hdecl := hcs capability (mem_of_capabilityNamed hnamed)
              rcases hcosts with hc | hc
              · simp [hc]
              · rw [hc]
                intro d hd
                obtain ⟨c, hc, rfl⟩ := List.mem_map.mp hd
                have := hdecl c hc
                simpa [CostDimension.modelDump] using this
            refine post_actuationExit hL hU h.1 hx.receipt_eq
              (fun e he => absurd he (append_actExit hC hU h.1 hm hx hfinite e))
              fun record w' hrec hd hl _ => ?_
            refine ⟨⟨hd, ?_⟩, fun _ => ⟨_, rfl, record, ?_, (hx.receipt_eq _).symm⟩⟩
            · have hone := acted_actuated log (e := ⟨_, r⟩) rfl hmore hmore'
              refine Eq.trans ?_ hone.symm
              rw [hl, receiptedActs_push, hrec, attempted_stamped, hx.attempted, if_pos rfl]
              exact congrArg (· + 1) h.2
            · rw [hl]
              simp

/-- An operation other than `act` leaves the two counts as they are. -/
theorem keeps_actsCounted {A : (c : Call) → c.Reply → Prop} (hL : UsesMemoryLedger rt)
    (hU : Function.Injective rt.uuid4) {op : Op} (hop : ∀ intent, op ≠ .act intent) :
    Keeps A (Framed rt ActsCounted) (op.program rt) := by
  have hlaw := actsFrame.law (A := A) hL hU
  exact LockedLaw.program (fun l => actsFrame.lockedLaw hL hU l)
    (fun _ _ => Keeps.modify fun _ _ h => h) (fun _ _ => Keeps.modify fun _ _ h => h)
    (fun _ _ => Keeps.modify fun _ _ h => h) (fun _ authorityRef st before authority =>
      hlaw.teardownAdmitted (fun _ => rfl)
        (fun r hr _ => attempted_of_operation (by simp [hr.operation]))
        (fun _ => Keeps.modify fun _ _ h => h) (Keeps.modify fun _ _ h => h) authorityRef st before
        authority)
    (fun _ => isAct_of_otherCall)
    (fun o r ho hr => attempted_of_operation (hr.operation ▸ ho)) hop

/-- Every `act` of a sequence finds room in the ledger. -/
def ActsMeet (rt : Runtime MemoryReceiptLedger) (ω : KernelOracle) (ops : List Op)
    (x : MemoryWorld × KernelLog) : Prop :=
  ∀ pre intent post, ops = pre ++ .act intent :: post → ActMeets (runOps rt ω pre x).1 intent

theorem runOps_actsCounted (hC : rt.canon.Total) (hL : UsesMemoryLedger rt)
    (hU : Function.Injective rt.uuid4) {ω : KernelOracle} (hω : ∀ log c, FiniteCosts c (ω log c)) :
    ∀ (ops : List Op) (x : MemoryWorld × KernelLog), Framed rt ActsCounted x.1 x.2 →
      ActsMeet rt ω ops x → Framed rt ActsCounted (runOps rt ω ops x).1 (runOps rt ω ops x).2
  | [], _, h, _ => h
  | op :: ops, x, h, hm => by
    refine runOps_actsCounted hC hL hU hω ops _ ?_ fun pre intent post he =>
      hm (op :: pre) intent post (by rw [he, List.cons_append])
    by_cases hop : ∃ intent, op = .act intent
    · obtain ⟨intent, rfl⟩ := hop
      have hpost := post_act hC hL hU (hm [] intent ops rfl) h
      exact exec_of_post (Q := fun _ w log => Framed rt ActsCounted w log) hω _
        ((post_map _ _).mpr (post_mono (fun _ _ _ h => h.1) _ hpost))
    · exact exec_of_post hω _ (keeps_actsCounted hL hU (fun intent he => hop ⟨intent, he⟩) _ _ h)

/-- A `GymAct` before its first operation. -/
def newWorld : MemoryWorld := { ledger := {} }

/-- A runtime over the reference canonicalization. -/
def sampleRuntime : Runtime MemoryReceiptLedger where
  canon := .reference
  append L receipt := (L.append .reference receipt).map Prod.fst
  judge _ _ := (true, "VERIFIED:SUBSET_MATCH")
  uuid4 n := String.ofList (List.replicate (n + 1) 'a')
  now _ := "2026-08-07T00:00:00+00:00"

theorem sampleRuntime_uuid4_injective : Function.Injective sampleRuntime.uuid4 := by
  intro a b h
  have := congrArg List.length (String.ofList_injective h)
  simpa using this

def sampleCapability : Capability :=
  { iri := "urn:gymact:memory:capability:set", title := "Set a value", consequence := .do,
    binding := "set" }

theorem sampleCapability_ne : sampleCapability.iri ≠ "" := by decide

/-- An outside where everything succeeds. -/
def sampleOutside (log : KernelLog) : (c : Call) → c.Reply
  | .authorize _ => .ok { admitted := true, reason := "AUTHORITY_ADMITTED" }
  | .materialize .. =>
    .ok ⟨log.length, "urn:gymact:environment:" ++ String.ofList (List.replicate log.length 'e'), false⟩
  | .capabilities _ => .ok [sampleCapability]
  | .observe _ => .ok []
  | .actuate .. => .ok [("updated", .bool true)]
  | .verify .. => .ok (true, [])
  | .checkpoint _ => .ok []
  | .restore .. => .ok ()
  | .teardown .. => .ok ()

/-- Two episodes, with the ids `a` and `aaa` that the runtime draws for them. -/
def twoEpisodes : List Op :=
  [.registerProvider ⟨"memory", false⟩, .materialize { idempotencyKey := "m1" },
    .materialize { idempotencyKey := "m2" }]

def sampleAct (episodeId key : String) : ActuationIntent :=
  { episodeId, capability := sampleCapability.iri, idempotencyKey := key }

end GymAct
