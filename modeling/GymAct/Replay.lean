import GymAct.CausalLog
import GymAct.CrownRuns
import GymAct.EvidenceChain

/-!
# Replay

`replay.py` : `replayLedger` verifies the chain of a ledger and looks for parents that name
no earlier receipt.

Every receipt above the kernel names as parents receipts that are in the ledger when it is
recorded : those of results, cached ones too, and of transitions that were returned
(`CausalWorld`). So the ledger of any run of a client is causal, and its replay is valid
(`replay_valid`). The validators of `Receipt` that refuse a doubled parent or a receipt that
is its own never fire.
-/

namespace GymAct

open Coop Coop.Prog CausalLog

/-! ## `replay.py` -/

inductive ReplayMode
  | evidenceReplay | verifierReplay | simulationReplay | liveReexecution
  deriving DecidableEq, Repr

/-- The identity a replay is held against. -/
structure ReplayExpectation where
  subjectRef : Option String := none
  capabilityRef : Option String := none
  policyRevision : Option String := none
  principal : Option String := none
  possibilityGraphDigest : Option String := none
  possibilityExplorationDigest : Option String := none
  possibilityPathId : Option String := none
  possibilityMorphismId : Option String := none
  selectionDigest : Option String := none
  deriving DecidableEq, Repr

structure ReplayReport where
  mode : ReplayMode
  valid : Bool
  recordCount : ℕ := 0
  headDigest : Option String := none
  mismatches : List String := []
  liveReexecutionAdmitted : Bool := false
  deriving DecidableEq, Repr

/-- A legacy field drifts when both sides name something else. -/
def legacyMismatch (field : String) (wanted actual : Option String) : List String :=
  if wanted ≠ none ∧ actual ≠ none ∧ actual ≠ wanted then [field ++ "_DRIFT"] else []

/-- A strict field drifts when it is not what is wanted. -/
def strictMismatch (field : String) (wanted actual : Option String) : List String :=
  if wanted ≠ none ∧ actual ≠ wanted then
    [field ++ "_" ++ if actual = none then "MISSING" else "DRIFT"]
  else []

/-- `_identity_mismatches`. -/
def identityMismatches (receipt : Receipt) (expected : ReplayExpectation) : List String :=
  legacyMismatch "SUBJECT_REF" expected.subjectRef receipt.subjectRef ++
  legacyMismatch "CAPABILITY_REF" expected.capabilityRef receipt.capabilityRef ++
  legacyMismatch "POLICY_REVISION" expected.policyRevision receipt.policyRevision ++
  legacyMismatch "PRINCIPAL" expected.principal receipt.principal ++
  strictMismatch "POSSIBILITY_GRAPH_DIGEST" expected.possibilityGraphDigest
    receipt.possibilityGraphDigest ++
  strictMismatch "POSSIBILITY_EXPLORATION_DIGEST" expected.possibilityExplorationDigest
    receipt.possibilityExplorationDigest ++
  strictMismatch "POSSIBILITY_PATH_ID" expected.possibilityPathId receipt.possibilityPathId ++
  strictMismatch "POSSIBILITY_MORPHISM_ID" expected.possibilityMorphismId
    receipt.possibilityMorphismId ++
  strictMismatch "SELECTION_DIGEST" expected.selectionDigest receipt.selectionDigest

/-- The loop of `replay_ledger` over the records, with the receipt ids seen before. -/
def replayMismatches (expected : Option ReplayExpectation) :
    List String → List EvidenceRecord → List String
  | _, [] => []
  | seen, record :: rest =>
    (record.receipt.parentReceiptIds.filter (fun parent => parent ∉ seen)).map
        ("PARENT_RECEIPT_MISSING_OR_FORWARD:" ++ ·) ++
      (match expected with
      | none => []
      | some expected => identityMismatches record.receipt expected) ++
      replayMismatches expected
        (if record.receipt.receiptId = "" then seen else seen ++ [record.receipt.receiptId]) rest

/-- `replay_ledger`. -/
def replayLedger (C : Canon) (L : MemoryReceiptLedger) (mode : ReplayMode)
    (expected : Option ReplayExpectation) (allowLiveReexecution : Bool) :
    Except PyError ReplayReport := do
  if mode = .liveReexecution ∧ allowLiveReexecution = false then
    pure { mode, valid := false, mismatches := ["LIVE_REEXECUTION_REFUSED"] }
  else
    let headDigest := L.records.getLast?.map EvidenceRecord.recordDigest
    let verified ← L.verify C
    if verified = false then
      pure
        { mode, valid := false, recordCount := L.records.length, headDigest,
          mismatches := ["EVIDENCE_CHAIN_INVALID"],
          liveReexecutionAdmitted := mode = .liveReexecution && allowLiveReexecution }
    else
      let mismatches := replayMismatches expected [] L.records
      pure
        { mode, valid := mismatches = [], recordCount := L.records.length, headDigest, mismatches,
          liveReexecutionAdmitted :=
            mode = .liveReexecution && allowLiveReexecution && mismatches = [] }

/-! ## Links -/

/-- The identifier of a receipt, with those of its parents. -/
def Receipt.link (receipt : Receipt) : String × List String :=
  (receipt.receiptId, receipt.parentReceiptIds)

@[simp] theorem Receipt.link_stamped (r : Receipt) (i t : String) :
    (r.stamped i t).link = (i, r.parentReceiptIds) := rfl

variable {Λ : Type}

/-- What a ledger does with a receipt it accepts, as far as links go : it adds the link, or
has a receipt of that identifier. `W` is what the ledger keeps. -/
def KeepsLinks (rt : Runtime Λ) (W : Λ → Prop) (links : Λ → List (String × List String)) : Prop :=
  ∀ L receipt L', W L → rt.append L receipt = .ok L' → W L' ∧
    (links L' = links L ++ [receipt.link] ∨ receipt.receiptId ∈ ids (links L))

/-- A world whose ledger is causal and holds the receipts of `R` and of the cached results. -/
structure CausalWorld (rt : Runtime Λ) (W : Λ → Prop) (links : Λ → List (String × List String))
    (R : Receipt → Prop) (w : World Λ) : Prop where
  kept : W w.ledger
  drawn : ∀ id ∈ ids (links w.ledger), ∃ n < w.supply, id = rt.uuid4 n
  distinct : (ids (links w.ledger)).Nodup
  causal : Causal (links w.ledger)
  cached : ∀ key entry, w.actuationIdempotency key = some entry →
    entry.result.receipt.link ∈ links w.ledger
  recorded : ∀ r, R r → r.link ∈ links w.ledger

section Causal

variable {rt : Runtime Λ} {W : Λ → Prop} {links : Λ → List (String × List String)}
  {R : Receipt → Prop} {w : World Λ} {A : (c : Call) → c.Reply → Prop} {log : Calls}

theorem CausalWorld.draw (h : CausalWorld rt W links R w) : CausalWorld rt W links R w.drawn where
  kept := h.kept
  drawn id hid := by
    obtain ⟨n, hn, he⟩ := h.drawn id hid
    exact ⟨n, Nat.lt_succ_of_lt hn, he⟩
  distinct := h.distinct
  causal := h.causal
  cached := h.cached
  recorded := h.recorded

/-- A receipt is recorded whose parents are in the ledger. -/
theorem CausalWorld.record (hlinks : KeepsLinks rt W links) (hU : Function.Injective rt.uuid4)
    (h : CausalWorld rt W links R w) {receipt : Receipt}
    (hparents : ∀ p ∈ receipt.parentReceiptIds, p ∈ ids (links w.ledger))
    (hnodup : receipt.parentReceiptIds.Nodup) {L : Λ}
    (happ : rt.append w.ledger (w.stamps rt receipt) = .ok L) :
    CausalWorld rt W links (fun r => R r ∨ r = w.stamps rt receipt)
      (w.drawn.recorded L (w.stamps rt receipt)) := by
  have hfresh : rt.uuid4 w.supply ∉ ids (links w.ledger) := by
    intro hid
    obtain ⟨n, hn, he⟩ := h.drawn _ hid
    exact absurd (hU he) (by omega)
  obtain ⟨hkept, hadded | hknown⟩ := hlinks _ _ _ h.kept happ
  · have hold : ∀ l ∈ links w.ledger, l ∈ links L := by simp +contextual [hadded]
    refine ⟨hkept, fun id hid => ?_, ?_, ?_, fun key entry hentry => hold _ (h.cached key entry hentry),
      fun r hr => ?_⟩
    · change id ∈ ids (links L) at hid
      rw [hadded, ids_append, List.mem_append] at hid
      rcases hid with hid | hid
      · obtain ⟨n, hn, he⟩ := h.drawn id hid
        exact ⟨n, Nat.lt_succ_of_lt hn, he⟩
      · exact ⟨w.supply, Nat.lt_succ_self _, List.mem_singleton.mp hid⟩
    · change (ids (links L)).Nodup
      rw [hadded, ids_append, List.nodup_append]
      refine ⟨h.distinct, List.nodup_singleton _, fun a ha b hb => ?_⟩
      rw [List.mem_singleton.mp hb]
      rintro rfl
      exact hfresh ha
    · change Causal (links L)
      rw [hadded]
      exact h.causal.snoc hparents hnodup
    · rcases hr with hr | rfl
      · exact hold _ (h.recorded r hr)
      · change _ ∈ links L
        simp [hadded]
  · exact absurd hknown hfresh

/-- Recording a receipt whose parents are in the ledger. -/
theorem post_recordNew_causal (hlinks : KeepsLinks rt W links) (hU : Function.Injective rt.uuid4)
    (h : CausalWorld rt W links R w) {receipt : Receipt}
    (hparents : ∀ p ∈ receipt.parentReceiptIds, p ∈ ids (links w.ledger))
    (hnodup : receipt.parentReceiptIds.Nodup)
    {Q : Except Exc Receipt → World Λ → Log (kernelSig Λ) → Prop}
    (herr : ∀ e, CausalWorld rt W links R w.drawn → Q (.error (.ledger e)) w.drawn log)
    (hok : ∀ r w', CausalWorld rt W links (fun x => R x ∨ x = r) w' → Q (.ok r) w' log) :
    post A Q (recordNew rt receipt) w log :=
  (post_recordNew receipt).mpr
    ⟨fun e _ => herr e h.draw, fun _ happ => hok _ _ (h.record hlinks hU hparents hnodup happ)⟩

theorem CausalWorld.mono {R' : Receipt → Prop} (h : CausalWorld rt W links R w)
    (hR : ∀ r, R' r → R r) : CausalWorld rt W links R' w :=
  { h with recorded := fun r hr => h.recorded r (hR r hr) }

/-- Keeping a causal ledger is a law of operations : their receipts name no parents. -/
theorem causal_law (hlinks : KeepsLinks rt W links) (hU : Function.Injective rt.uuid4) :
    KernelLaw rt A (fun _ => True) (fun receipt => receipt.parentReceiptIds = [])
      fun _ p => Keeps A (fun (w : World Λ) _ => CausalWorld rt W links R w) p where
  ret r := Keeps.lift (A := A) r
  bindE hp hf := hp.bindE hf
  getState := Keeps.getState (A := A)
  leads hp ht := hp.keeps (fun _ _ _ _ _ h => h) ht
  idle := Keeps.modify fun _ _ h => h
  drawn := Keeps.modify fun _ _ h => h.draw
  verified _ := Keeps.modify fun _ _ h => { h with }
  recorded hp hf := by
    intro w log h
    rw [post_bind, post_stamp, post_onOk, post_bind, post_record]
    refine ⟨fun e _ => h.draw, fun L happ => hf _ _ _ ?_⟩
    exact (h.record hlinks hU (by simp [hp]) (by simp [hp]) happ).mono fun r hr => Or.inl hr

theorem causal_lockedLaw (hlinks : KeepsLinks rt W links) (hU : Function.Injective rt.uuid4)
    (l : LockId) :
    LockedLaw rt A (fun _ => True) (fun _ => True) (fun receipt => receipt.parentReceiptIds = [])
      (fun _ p => Keeps A (fun (w : World Λ) _ => CausalWorld rt W links R w) p) l
      fun _ p => Keeps A (fun (w : World Λ) _ => CausalWorld rt W links R w) p :=
  ⟨causal_law hlinks hU, causal_law hlinks hU, fun h => h.withLock l⟩

/-! ## Operations -/

section Operations

variable (hlinks : KeepsLinks rt W links) (hU : Function.Injective rt.uuid4)

include hlinks hU

theorem causal_otherOp {op : Op} (hop : ∀ intent, op ≠ .act intent) :
    Keeps A (fun (w : World Λ) _ => CausalWorld rt W links R w) (op.program rt) := by
  have hlaw := causal_law (A := A) (R := R) hlinks hU
  exact LockedLaw.program (causal_lockedLaw hlinks hU) (fun _ _ => Keeps.modify fun _ _ h => { h with })
    (fun _ _ => Keeps.modify fun _ _ h => { h with }) (fun _ _ => Keeps.modify fun _ _ h => { h with })
    (fun _ authorityRef st before authority =>
      hlaw.teardownAdmitted (fun _ => trivial) (fun _ hr _ => hr.parents)
        (fun _ => Keeps.modify fun _ _ h => { h with }) (Keeps.modify fun _ _ h => { h with })
        authorityRef st before authority)
    (fun _ _ => trivial) (fun _ _ _ hr => hr.parents) hop

theorem causal_verify (episodeId : String) (expected : Payload) :
    Keeps A (fun (w : World Λ) _ => CausalWorld rt W links R w) (verify rt episodeId expected) :=
  (causal_lockedLaw hlinks hU _).verify (fun _ _ => trivial) (fun _ _ => trivial)
    (fun _ hr => hr.parents) expected

theorem causal_refusePort (intent : ActuationIntent) (reason : String) :
    Keeps A (fun (w : World Λ) _ => CausalWorld rt W links R w) (refusePort rt intent reason) := by
  have hlaw := causal_law (A := A) (R := R) hlinks hU
  refine hlaw.bind (hlaw.state _) fun st => (causal_lockedLaw hlinks hU _).withLock ?_
  exact hlaw.bind (hlaw.observeUnlocked (fun _ _ => trivial) st) fun _ =>
    hlaw.bind (hlaw.recordNew rfl) fun _ => hlaw.pure _

omit hlinks hU in
theorem ActEnds.parents {intent : ActuationIntent} {st : EpisodeState} {intentDigest : String}
    {calls : Calls} {receipt : Receipt} {result : Receipt → ActuationResult} {cache : Bool}
    (h : ActEnds rt intent st w intentDigest calls receipt result cache) :
    receipt.parentReceiptIds = [] := by
  cases h with
  | conflict _ _ _ _ hreceipt => exact hreceipt.parents
  | refused _ _ _ hreceipt => exact hreceipt.parents
  | failed _ _ _ _ _ hreceipt => exact hreceipt.parents
  | acted _ _ _ _ hreceipt => exact hreceipt.parents

/-- The receipt of the result of `act` is in the ledger. -/
theorem causal_act (hC : rt.canon.Total) (intent : ActuationIntent)
    (h : CausalWorld rt W links R w) :
    post (S := kernelSig Λ) A (fun r (w : World Λ) _ =>
      (∀ e, r = .error e → CausalWorld rt W links R w) ∧ ∀ result, r = .ok result →
        CausalWorld rt W links (fun x => R x ∨ x = result.receipt) w) (act rt intent) w log := by
  refine post_act_cases hC (fun e calls _ => ⟨fun _ _ => h, fun _ hr => by cases hr⟩)
    (fun st entry _ hentry _ => ⟨fun _ hr => (by cases hr), fun result hr => ?_⟩)
    fun st d calls receipt result cache _ _ hends => ?_
  · cases hr
    exact { h with
      recorded := fun r hr => hr.elim (h.recorded r) fun he => he ▸ h.cached _ entry hentry }
  · refine (post_actuationExit_iff hends.receipt_eq).mpr
      ⟨fun _ _ => ⟨fun _ _ => h.draw, fun _ hr => by cases hr⟩,
        fun L happ => ⟨fun _ hr => (by cases hr), fun _ hr => ?_⟩⟩
    cases hr
    have hrecorded := h.record hlinks hU (by simp [hends.parents]) (by simp [hends.parents]) happ
    rw [hends.receipt_eq]
    cases cache with
    | false =>
      rw [World.exited, hends.receipt_eq]
      exact hrecorded
    | true =>
      rw [World.exited, hends.receipt_eq]
      refine { hrecorded with cached := fun key entry hentry => ?_ }
      change Function.update w.actuationIdempotency (actKey intent)
        (some ⟨d, result (w.stamps rt receipt)⟩) key = some entry at hentry
      by_cases hkey : key = actKey intent
      · subst hkey
        rw [Function.update_self] at hentry
        obtain rfl := Option.some.inj hentry
        change (result (w.stamps rt receipt)).receipt.link ∈ _
        rw [hends.receipt_eq]
        exact hrecorded.recorded _ (Or.inr rfl)
      · rw [Function.update_of_ne hkey] at hentry
        exact hrecorded.cached key entry hentry

omit hlinks hU in
theorem CausalWorld.mem_ids (h : CausalWorld rt W links R w) {r : Receipt} (hr : R r) :
    r.receiptId ∈ ids (links w.ledger) :=
  List.mem_map_of_mem (f := Prod.fst) (h.recorded r hr)

/-! ### Executions -/

/-- The receipts a transition is read by. -/
def VerifiedTransition.Names (t : VerifiedTransition) (r : Receipt) : Prop :=
  r = t.actuation.receipt ∨ r = t.receipt

/-- The receipts transitions are read by. -/
def NamedBy (returned : List VerifiedTransition) (r : Receipt) : Prop := ∃ t ∈ returned, t.Names r

/-- The ledger is causal however a part of an execution ends, and holds the receipts of the
transition it returns. -/
def CausalTransition (rt : Runtime Λ) (W : Λ → Prop) (links : Λ → List (String × List String))
    (R : Receipt → Prop) (r : Except Exc VerifiedTransition) (w : World Λ) (_ : Calls) : Prop :=
  (∀ e, r = .error e → CausalWorld rt W links R w) ∧
    ∀ t, r = .ok t → CausalWorld rt W links (fun x => R x ∨ t.Names x) w

omit hlinks hU in
theorem causalTransition_error {e : Exc} (h : CausalWorld rt W links R w) :
    CausalTransition rt W links R (.error e) w log :=
  ⟨fun _ _ => h, fun _ hr => by cases hr⟩

omit hlinks hU in
theorem causalTransition_ok {t : VerifiedTransition} {R' : Receipt → Prop}
    (h : CausalWorld rt W links R' w) (hR : ∀ r, R r → R' r) (hactuation : R' t.actuation.receipt)
    (hreceipt : R' t.receipt) : CausalTransition rt W links R (.ok t) w log := by
  refine ⟨fun _ hr => (by cases hr), fun t' ht => h.mono fun r hr => ?_⟩
  cases ht
  rcases hr with hr | rfl | rfl
  · exact hR r hr
  · exact hactuation
  · exact hreceipt

/-- Recording a receipt with one parent, which is in the ledger. -/
theorem post_recordChild (h : CausalWorld rt W links R w) {receipt parent : Receipt}
    (hparent : R parent) (hparents : receipt.parentReceiptIds = [parent.receiptId])
    {f : Receipt → VerifiedTransition}
    (hf : ∀ r, R (f r).actuation.receipt ∧ (f r).receipt = r) :
    post (S := kernelSig Λ) A (CausalTransition rt W links R)
      (recordNew rt receipt >>= fun r => pure (f r)) w log := by
  rw [post_bind]
  refine post_recordNew_causal hlinks hU h (fun p hp => ?_) (by simp [hparents])
    (fun _ h => causalTransition_error h) fun r w' h' => ?_
  · rw [hparents, List.mem_singleton] at hp
    exact hp ▸ h.mem_ids hparent
  · exact causalTransition_ok h' (fun _ => Or.inl) (Or.inl (hf r).1) (Or.inr (hf r).2)

theorem causal_settleExecution {request : BrokerRequest} {actuation : ActuationResult}
    (h : CausalWorld rt W links (fun x => R x ∨ x = actuation.receipt) w) :
    post (S := kernelSig Λ) A (CausalTransition rt W links R) (settleExecution rt request actuation)
      w log := by
  have hafter : post (S := kernelSig Λ) A (CausalTransition rt W links
      (fun x => R x ∨ x = actuation.receipt)) (afterAct rt request.intent request.expected actuation)
      w log := by
    unfold afterAct
    split
    · split
      · exact post_recordChild hlinks hU h (Or.inr rfl) rfl fun r => ⟨Or.inr rfl, rfl⟩
      · exact causalTransition_ok h (fun _ => id) (Or.inr rfl) (Or.inr rfl)
    · rw [post_bind]
      refine post_mono (fun r w log h => ?_) _ (causal_verify hlinks hU _ _ _ _ h)
      cases r with
      | error e => exact causalTransition_error h
      | ok verification =>
        exact post_recordChild hlinks hU h (Or.inr rfl) rfl fun r => ⟨Or.inr rfl, rfl⟩
  rw [settleExecution, post_bind]
  refine post_mono (fun r w log hr => ?_) _ hafter
  cases r with
  | error e => exact causalTransition_error ((hr.1 e rfl).mono fun _ => Or.inl)
  | ok t =>
    have ht : CausalWorld rt W links (fun x => R x ∨ t.Names x) w := (hr.2 t rfl).mono
      fun _ hx => hx.elim (fun hx => Or.inl (Or.inl hx)) Or.inr
    have hbind : post (S := kernelSig Λ) A (CausalTransition rt W links
        fun x => R x ∨ t.Names x) (bindTransition rt request t) w log :=
      post_recordChild hlinks hU ht (Or.inr (Or.inr rfl)) rfl fun r => ⟨Or.inr (Or.inl rfl), rfl⟩
    refine post_mono (fun r w log h => ?_) _ hbind
    exact ⟨fun e he => (h.1 e he).mono fun _ => Or.inl, fun t' ht' => (h.2 t' ht').mono fun _ hx =>
      hx.elim (fun hx => Or.inl (Or.inl hx)) Or.inr⟩

theorem causal_brokerExecute (hC : rt.canon.Total) (cls : RuntimeClass) (request : BrokerRequest)
    (moment : ℤ) (h : CausalWorld rt W links R w) :
    post (S := kernelSig Λ) A (CausalTransition rt W links R) (brokerExecute rt cls request moment) w
      log := by
  refine post_brokerExecute (fun reason _ => ?_) (causalTransition_error h) fun _ _ => ?_
  · rw [refuseAdmission, post_bind]
    refine post_recordNew_causal hlinks hU h (fun p hp => (by cases hp)) (List.nodup_nil)
      (fun _ h => causalTransition_error h) fun r w' h' => ?_
    exact causalTransition_ok h' (fun _ => Or.inl) (Or.inr rfl) (Or.inr rfl)
  · rw [post_bind]
    refine post_mono (fun r w log hr => ?_) _ (causal_act hlinks hU hC request.intent h)
    cases r with
    | error e => exact causalTransition_error (hr.1 e rfl)
    | ok actuation => exact causal_settleExecution hlinks hU (hr.2 actuation rfl)

theorem causal_combinatorialExecute (hC : rt.canon.Total) (cls : RuntimeClass)
    (request : CombinatorialBrokerRequest rt.canon) (moment : ℤ)
    (h : CausalWorld rt W links R w) :
    post (S := kernelSig Λ) A (CausalTransition rt W links R)
      (combinatorialExecute rt cls request moment) w log := by
  rw [combinatorialExecute, post_bind]
  refine post_mono (fun r w log hr => ?_) _
    (causal_brokerExecute hlinks hU hC cls request.brokerRequest moment h)
  cases r with
  | error e => exact causalTransition_error (hr.1 e rfl)
  | ok t =>
    have ht := hr.2 t rfl
    have hlink := ht.recorded t.receipt (Or.inr (Or.inr rfl))
    obtain ⟨hparents, hnodup⟩ := ht.causal.parents hlink
    have hself := ht.causal.irrefl ht.distinct hlink
    rw [post_onOk, post_bind]
    refine post_recordNew_causal hlinks hU ht (fun p hp => ?_) ?_
      (fun _ h => causalTransition_error (h.mono fun _ => Or.inl)) fun r w' h' => ?_
    · rcases List.mem_append.mp hp with hp | hp
      · exact hparents p hp
      · rw [List.mem_singleton.mp hp]
        exact ht.mem_ids (Or.inr (Or.inr rfl))
    · change (t.receipt.parentReceiptIds ++ [t.receipt.receiptId]).Nodup
      rw [List.nodup_append]
      refine ⟨hnodup, List.nodup_singleton _, fun a ha b hb => ?_⟩
      rw [List.mem_singleton.mp hb]
      rintro rfl
      exact hself ha
    · exact causalTransition_ok h' (fun _ hx => Or.inl (Or.inl hx)) (Or.inl (Or.inr (Or.inl rfl)))
        (Or.inr rfl)

/-- A call of a client keeps the ledger causal. -/
theorem causal_call (hC : rt.canon.Total) {cls : RuntimeClass} {returned : List VerifiedTransition}
    (op : CrownOp rt.canon)
    (h : CausalWorld rt W links (NamedBy returned) w) :
    post (S := kernelSig Λ) A (fun r (w : World Λ) _ =>
        (∀ t, r = .ok (some t) →
          CausalWorld rt W links (fun x => NamedBy returned x ∨ t.Names x) w) ∧
        CausalWorld rt W links (NamedBy returned) w)
      (op.program rt cls returned) w log := by
  have hreturns : ∀ {r : Except Exc VerifiedTransition} {w : World Λ} {log : Calls},
      CausalTransition rt W links (NamedBy returned) r w log →
        (∀ t, r.map some = .ok (some t) →
          CausalWorld rt W links (fun x => NamedBy returned x ∨ t.Names x) w) ∧
        CausalWorld rt W links (NamedBy returned) w := by
    intro r w log hr
    cases r with
    | error e => exact ⟨fun t ht => (by cases ht), hr.1 e rfl⟩
    | ok t =>
      refine ⟨fun t' ht => ?_, (hr.2 t rfl).mono fun _ => Or.inl⟩
      cases ht
      exact hr.2 t rfl
  have hsilent : ∀ {α : Type} {p : M Λ α}, post (S := kernelSig Λ) A (fun _ (w : World Λ) _ =>
      CausalWorld rt W links (NamedBy returned) w) p w log →
      post (S := kernelSig Λ) A (fun r (w : World Λ) _ =>
        (∀ t : VerifiedTransition, r = .ok (some t) →
          CausalWorld rt W links (fun x => NamedBy returned x ∨ t.Names x) w) ∧
        CausalWorld rt W links (NamedBy returned) w)
        ((fun _ => none) <$> p) w log := by
    intro α p hp
    refine (post_map _ _).mpr (post_mono (fun r w log h => ⟨fun t ht => ?_, h⟩) _ hp)
    cases r <;> cases ht
  cases op with
  | kernel op =>
    refine hsilent ?_
    by_cases hact : ∃ intent, op = .act intent
    · obtain ⟨intent, rfl⟩ := hact
      refine (post_map _ _).mpr ?_
      cases cls with
      | reference =>
        refine post_mono (fun r w log hr => ?_) _ (causal_act hlinks hU hC intent h)
        cases r with
        | error e => exact hr.1 e rfl
        | ok result => exact (hr.2 result rfl).mono fun _ => Or.inl
      | production => exact causal_refusePort hlinks hU intent _ _ _ h
    · have hact : ∀ intent, op ≠ .act intent := fun intent h => hact ⟨intent, h⟩
      have hother := causal_otherOp (A := A) hlinks hU hact w log h
      cases op <;> first | exact hother | exact absurd rfl (hact _)
  | execute request moment =>
    exact (post_map _ _).mpr (post_mono (fun _ _ _ => hreturns) _
      (causal_brokerExecute hlinks hU hC cls request moment h))
  | executeCut request moment =>
    exact (post_map _ _).mpr (post_mono (fun _ _ _ => hreturns) _
      (causal_combinatorialExecute hlinks hU hC cls request moment h))
  | reconcile place expected =>
    unfold CrownOp.program
    dsimp only
    split
    · exact ⟨fun t ht => (by cases ht), h⟩
    case h_2 t ht =>
      refine hsilent ?_
      unfold reconcileUncertain
      split
      · exact h
      · rw [post_bind]
        refine post_mono (fun r w log h => ?_) _ (causal_verify hlinks hU _ _ _ _ h)
        cases r with
        | error e => exact h
        | ok verification =>
          rw [post_onOk, post_bind]
          refine post_recordNew_causal hlinks hU h (fun p hp => ?_) (List.nodup_singleton _)
            (fun _ h => h) fun r w' h' => h'.mono fun _ => Or.inl
          rw [List.mem_singleton.mp hp]
          exact h.mem_ids ⟨t, List.mem_of_getElem? ht, Or.inl rfl⟩

end Operations

/-- A run of a client keeps the ledger causal. -/
theorem causal_run (hlinks : KeepsLinks rt W links) (hU : Function.Injective rt.uuid4)
    (hC : rt.canon.Total) {cls : RuntimeClass} {ω : Oracle (kernelSig Λ)} {s : CrownState Λ}
    (ops : List (CrownOp rt.canon)) (h : CausalWorld rt W links (NamedBy s.returned) s.world) :
    CausalWorld rt W links (NamedBy (s.run rt cls ω ops).returned) (s.run rt cls ω ops).world := by
  refine CrownState.run_induction
    (P := fun s => CausalWorld rt W links (NamedBy s.returned) s.world) (fun s op h => ?_) ops h
  have hcall : (∀ t, (s.call rt cls ω op).1 = .ok (some t) →
        CausalWorld rt W links (fun x => NamedBy s.returned x ∨ t.Names x) (s.call rt cls ω op).2.1) ∧
      CausalWorld rt W links (NamedBy s.returned) (s.call rt cls ω op).2.1 :=
    s.call_of_post (Q := fun r w _ => (∀ t, r = .ok (some t) →
        CausalWorld rt W links (fun x => NamedBy s.returned x ∨ t.Names x) w) ∧
      CausalWorld rt W links (NamedBy s.returned) w) (causal_call hlinks hU hC op h)
  unfold CrownState.step
  dsimp only
  cases hr : (s.call rt cls ω op).1 with
  | error e => simpa [Except.toOption] using hcall.2
  | ok t? =>
    cases t? with
    | none => simpa [Except.toOption] using hcall.2
    | some t =>
      refine (hcall.1 t hr).mono fun r hr => ?_
      obtain ⟨t', ht', hnames⟩ := hr
      rcases List.mem_append.mp ht' with ht' | ht'
      · exact Or.inl ⟨t', ht', hnames⟩
      · obtain rfl : t' = t := by simpa [Except.toOption] using ht'
        exact Or.inr hnames

end Causal

/-! ## The replay of a run -/

/-- The links of the memory ledger. -/
def MemoryReceiptLedger.links (L : MemoryReceiptLedger) : List (String × List String) :=
  L.records.map fun record => record.receipt.link

theorem memory_keepsLinks {rt : Runtime MemoryReceiptLedger} (hL : UsesMemoryLedger rt) :
    KeepsLinks rt (MemoryReceiptLedger.WellFormed rt.canon) MemoryReceiptLedger.links := by
  intro L receipt L' hW happ
  rw [hL] at happ
  cases ha : L.append rt.canon receipt with
  | error e => simp [ha, Except.map] at happ
  | ok x =>
    obtain ⟨L'', record⟩ := x
    obtain rfl : L'' = L' := by simpa [ha, Except.map] using happ
    have hstep := hW.step receipt
    rw [MemoryReceiptLedger.appendRun_eq, ha] at hstep
    refine ⟨hstep, ?_⟩
    rcases MemoryReceiptLedger.append_cases ha with ⟨rfl, hprior, -⟩ | ⟨-, -, rfl, rfl⟩
    · obtain ⟨hmem, hid⟩ := (hW.byReceipt _ _).mp hprior
      exact Or.inr (List.mem_map.mpr ⟨record.receipt.link, List.mem_map_of_mem hmem, hid⟩)
    · exact Or.inl (by simp [MemoryReceiptLedger.links])

/-- Without an expectation the loop finds the parents that name nothing earlier. -/
theorem replayMismatches_none : ∀ (records : List EvidenceRecord) (seen : List String),
    (∀ record ∈ records, record.receipt.receiptId ≠ "") →
      replayMismatches none seen records =
        (forward seen (records.map fun record => record.receipt.link)).map
          ("PARENT_RECEIPT_MISSING_OR_FORWARD:" ++ ·)
  | [], _, _ => rfl
  | record :: rest, seen, h => by
    have hid := h record (List.mem_cons_self ..)
    rw [replayMismatches, if_neg hid, replayMismatches_none rest _ fun r hr =>
      h r (List.mem_cons_of_mem _ hr)]
    simp [forward, Receipt.link]

/-- The ledger of a run of a new runtime is causal. -/
theorem causal_newRun {rt : Runtime MemoryReceiptLedger} (hC : rt.canon.Total)
    (hL : UsesMemoryLedger rt) (hU : Function.Injective rt.uuid4) (cls : RuntimeClass)
    (ω : KernelOracle) (ops : List (CrownOp rt.canon)) :
    CausalWorld rt (MemoryReceiptLedger.WellFormed rt.canon) MemoryReceiptLedger.links
      (NamedBy (CrownState.run rt cls ω { world := newWorld } ops).returned)
      (CrownState.run rt cls ω { world := newWorld } ops).world :=
  causal_run (memory_keepsLinks hL) hU hC ops
    { kept := .empty
      drawn := fun id hid => by cases hid
      distinct := .nil
      causal := .nil
      cached := fun _ _ h => by cases h
      recorded := fun r ⟨_, ht, _⟩ => by cases ht }

/-- The chain of a run verifies, and the parents of its records name earlier ones. -/
theorem chain_newRun {rt : Runtime MemoryReceiptLedger} (hC : rt.canon.Total)
    (hL : UsesMemoryLedger rt) (hU : Function.Injective rt.uuid4) (hid : ∀ n, rt.uuid4 n ≠ "")
    (cls : RuntimeClass) (ω : KernelOracle) (ops : List (CrownOp rt.canon)) :
    let L := (CrownState.run rt cls ω { world := newWorld } ops).world.ledger
    L.verify rt.canon = .ok true ∧ replayMismatches none [] L.records = [] := by
  intro L
  have h := causal_newRun hC hL hU cls ω ops
  have hids : ∀ record ∈ L.records, record.receipt.receiptId ≠ "" := by
    intro record hr hempty
    obtain ⟨n, -, hn⟩ := h.drawn record.receipt.receiptId
      (List.mem_map.mpr ⟨record.receipt.link, List.mem_map_of_mem hr, rfl⟩)
    exact hid n (hn.symm.trans hempty)
  refine ⟨(MemoryReceiptLedger.verifyFrom_iff 0 none _).mpr h.kept.linked, ?_⟩
  rw [replayMismatches_none _ _ hids, List.map_eq_nil_iff]
  exact h.causal.forward_eq_nil

/-- The report on a ledger whose chain verifies. -/
theorem replayLedger_verified {C : Canon} {L : MemoryReceiptLedger} (hverify : L.verify C = .ok true)
    {mode : ReplayMode} {allowed : Bool} (hlive : mode = .liveReexecution → allowed = true)
    (expected : Option ReplayExpectation) :
    ∃ report, replayLedger C L mode expected allowed = .ok report ∧
      report.mismatches = replayMismatches expected [] L.records ∧
      (report.valid = true ↔ report.mismatches = []) := by
  have hmode : ¬ (mode = .liveReexecution ∧ allowed = false) := fun ⟨hm, ha⟩ => by
    simp [hlive hm] at ha
  refine ⟨_, by simp only [replayLedger, if_neg hmode, hverify, bind, Except.bind]; rfl, rfl, ?_⟩
  simp

/-- The ledger of every run of a new runtime replays as valid : the parents of every record
name earlier records, each once and none the record itself. -/
theorem replay_valid (rt : Runtime MemoryReceiptLedger) (hC : rt.canon.Total)
    (hL : UsesMemoryLedger rt) (hU : Function.Injective rt.uuid4) (hid : ∀ n, rt.uuid4 n ≠ "")
    (cls : RuntimeClass) (ω : KernelOracle) (ops : List (CrownOp rt.canon)) :
    let L := (CrownState.run rt cls ω { world := newWorld } ops).world.ledger
    (∀ mode allowLiveReexecution, (mode = .liveReexecution → allowLiveReexecution = true) →
      ∃ report, replayLedger rt.canon L mode none allowLiveReexecution = .ok report ∧
        report.valid = true) ∧
    ∀ pre record post, L.records = pre ++ record :: post →
      (∀ parent ∈ record.receipt.parentReceiptIds,
        ∃ earlier ∈ pre, earlier.receipt.receiptId = parent) ∧
      record.receipt.parentReceiptIds.Nodup ∧
      record.receipt.receiptId ∉ record.receipt.parentReceiptIds := by
  intro L
  have h := causal_newRun hC hL hU cls ω ops
  refine ⟨fun mode allowed hlive => ?_, fun pre record post hrecords => ?_⟩
  · obtain ⟨hverify, hnone⟩ := chain_newRun hC hL hU hid cls ω ops
    obtain ⟨report, hreport, hmismatches, hvalid⟩ := replayLedger_verified hverify hlive none
    exact ⟨report, hreport, hvalid.mpr (hmismatches.trans hnone)⟩
  · have hlink : record.receipt.link ∈ MemoryReceiptLedger.links L :=
      List.mem_map.mpr ⟨record, by simp [hrecords], rfl⟩
    obtain ⟨hparents, hnodup⟩ := h.causal (pre.map fun record => record.receipt.link)
      record.receipt.link (post.map fun record => record.receipt.link) (by
        change L.records.map _ = _
        rw [hrecords]
        simp)
    refine ⟨fun parent hp => ?_, hnodup, h.causal.irrefl h.distinct hlink⟩
    have := hparents parent hp
    simpa [ids, Receipt.link] using this

/-- A request, executed and delivered again. -/
def replaySample : List (CrownOp sampleRuntime.canon) :=
  [.kernel (.registerProvider ⟨"memory", false⟩), .kernel (.materialize { idempotencyKey := "m1" }),
    .execute firstRequest 0, .execute firstRequest 0]

theorem sampleRuntime_uuid4_ne (n : ℕ) : sampleRuntime.uuid4 n ≠ "" := by
  intro h
  have := congrArg String.length h
  simp [sampleRuntime] at this

theorem replay_valid_sample :
    let L := (CrownState.run sampleRuntime .production sampleOutside { world := newWorld }
      replaySample).world.ledger
    L.records.length = 8 ∧ ∃ report, replayLedger sampleRuntime.canon L .evidenceReplay none false =
      .ok report ∧ report.valid = true := by
  exact ⟨by decide +kernel, (replay_valid sampleRuntime Canon.reference_total (fun _ _ => rfl)
    sampleRuntime_uuid4_injective sampleRuntime_uuid4_ne .production sampleOutside replaySample).1
      .evidenceReplay false (by simp)⟩

end GymAct
