import GymAct.Replay

/-!
# The replay of a cut

A replay held against a selection compares five strict fields with those of every receipt
of the ledger (`StrictField`). The kernel and the broker name no selection in their
receipts; only the last receipt of a combinatorial execution does.

`cut_replay` : after one combinatorial execution no expectation of a selection is met, the
honest one neither : every strict field is missing. What tells the selections apart is the
drift : a strict field is reported as drifted exactly when the selection of the execution
and the expected one differ in it.
-/

namespace GymAct

open Coop Coop.Prog

/-! ## Strict fields -/

/-- `_DCM_STRICT_IDENTITY_FIELDS`. -/
inductive StrictField
  | possibilityGraphDigest
  | possibilityExplorationDigest
  | possibilityPathId
  | possibilityMorphismId
  | selectionDigest
  deriving DecidableEq, Repr

namespace StrictField

/-- The name of a field in a mismatch. -/
def label : StrictField → String
  | possibilityGraphDigest => "POSSIBILITY_GRAPH_DIGEST"
  | possibilityExplorationDigest => "POSSIBILITY_EXPLORATION_DIGEST"
  | possibilityPathId => "POSSIBILITY_PATH_ID"
  | possibilityMorphismId => "POSSIBILITY_MORPHISM_ID"
  | selectionDigest => "SELECTION_DIGEST"

def ofReceipt (receipt : Receipt) : StrictField → Option String
  | possibilityGraphDigest => receipt.possibilityGraphDigest
  | possibilityExplorationDigest => receipt.possibilityExplorationDigest
  | possibilityPathId => receipt.possibilityPathId
  | possibilityMorphismId => receipt.possibilityMorphismId
  | selectionDigest => receipt.selectionDigest

def ofSelection (selection : IrreversibleSelection) : StrictField → String
  | possibilityGraphDigest => selection.graphDigest
  | possibilityExplorationDigest => selection.explorationDigest
  | possibilityPathId => selection.pathId
  | possibilityMorphismId => selection.morphismId
  | selectionDigest => selection.selectionDigest

theorem drift_inj {f g : StrictField} (h : f.label ++ "_DRIFT" = g.label ++ "_DRIFT") : f = g := by
  cases f <;> cases g <;> first | rfl | exact absurd h (by decide)

theorem missing_inj {f g : StrictField} (h : f.label ++ "_MISSING" = g.label ++ "_MISSING") :
    f = g := by
  cases f <;> cases g <;> first | rfl | exact absurd h (by decide)

theorem missing_ne_drift (f g : StrictField) : f.label ++ "_MISSING" ≠ g.label ++ "_DRIFT" := by
  cases f <;> cases g <;> decide

theorem exists_iff {p : StrictField → Prop} :
    (∃ f, p f) ↔ p possibilityGraphDigest ∨ p possibilityExplorationDigest ∨ p possibilityPathId ∨
      p possibilityMorphismId ∨ p selectionDigest := by
  constructor
  · rintro ⟨f, hf⟩
    cases f <;> tauto
  · rintro (h | h | h | h | h) <;> exact ⟨_, h⟩

theorem ofReceipt_of_uncut {receipt : Receipt} (h : receipt.Uncut) (f : StrictField) :
    f.ofReceipt receipt = none := by
  simp only [Receipt.Uncut, Receipt.cutFields, List.replicate, List.cons.injEq] at h
  obtain ⟨hgraph, hexploration, hpath, hmorphism, hselection, -⟩ := h
  cases f <;> assumption

end StrictField

/-- The expectation made of a selection and a capability. -/
def IrreversibleSelection.expectation (selection : IrreversibleSelection) (capabilityRef : String) :
    ReplayExpectation :=
  { capabilityRef := some capabilityRef
    possibilityGraphDigest := some selection.graphDigest
    possibilityExplorationDigest := some selection.explorationDigest
    possibilityPathId := some selection.pathId
    possibilityMorphismId := some selection.morphismId
    selectionDigest := some selection.selectionDigest }

section Mismatches

variable {receipt : Receipt} {selection : IrreversibleSelection} {capabilityRef m : String}

@[simp] theorem legacyMismatch_none (field : String) (actual : Option String) :
    legacyMismatch field none actual = [] := by
  simp [legacyMismatch]

/-- What is compared with an expectation made of a selection. -/
theorem mem_identityMismatches :
    m ∈ identityMismatches receipt (selection.expectation capabilityRef) ↔
      m ∈ legacyMismatch "CAPABILITY_REF" (some capabilityRef) receipt.capabilityRef ∨
        ∃ f : StrictField,
          m ∈ strictMismatch f.label (some (f.ofSelection selection)) (f.ofReceipt receipt) := by
  rw [StrictField.exists_iff]
  simp only [identityMismatches, IrreversibleSelection.expectation, legacyMismatch_none,
    List.mem_append, List.not_mem_nil, false_or, or_false, StrictField.label, StrictField.ofSelection,
    StrictField.ofReceipt, or_assoc]

theorem mem_strictMismatch {f : StrictField} {wanted : String} {actual : Option String} :
    m ∈ strictMismatch f.label (some wanted) actual ↔
      (actual = none ∧ m = f.label ++ "_MISSING") ∨
        (actual ≠ none ∧ actual ≠ some wanted ∧ m = f.label ++ "_DRIFT") := by
  cases actual with
  | none => simp [strictMismatch, String.append_assoc]
  | some value => by_cases h : value = wanted <;> simp [strictMismatch, h, String.append_assoc]

/-- A strict field is missing where the receipt has none. -/
theorem missing_mem_iff (f : StrictField) :
    f.label ++ "_MISSING" ∈ identityMismatches receipt (selection.expectation capabilityRef) ↔
      f.ofReceipt receipt = none := by
  rw [mem_identityMismatches]
  constructor
  · rintro (h | ⟨g, h⟩)
    · unfold legacyMismatch at h
      split at h
      · cases f <;> simp [StrictField.label] at h
      · cases h
    · rcases mem_strictMismatch.mp h with ⟨hnone, hlabel⟩ | ⟨-, -, hlabel⟩
      · rwa [StrictField.missing_inj hlabel]
      · exact absurd hlabel (StrictField.missing_ne_drift f g)
  · exact fun h => Or.inr ⟨f, mem_strictMismatch.mpr (Or.inl ⟨h, rfl⟩)⟩

/-- A strict field drifts where the receipt has another. -/
theorem drift_mem_iff (f : StrictField) :
    f.label ++ "_DRIFT" ∈ identityMismatches receipt (selection.expectation capabilityRef) ↔
      f.ofReceipt receipt ≠ none ∧ f.ofReceipt receipt ≠ some (f.ofSelection selection) := by
  rw [mem_identityMismatches]
  constructor
  · rintro (h | ⟨g, h⟩)
    · unfold legacyMismatch at h
      split at h
      · cases f <;> simp [StrictField.label] at h
      · cases h
    · rcases mem_strictMismatch.mp h with ⟨-, hlabel⟩ | ⟨hsome, hne, hlabel⟩
      · exact absurd hlabel.symm (StrictField.missing_ne_drift g f)
      · rw [StrictField.drift_inj hlabel]
        exact ⟨hsome, hne⟩
  · exact fun h => Or.inr ⟨f, mem_strictMismatch.mpr (Or.inr ⟨h.1, h.2, rfl⟩)⟩

/-- The loop of a replay finds the parents out of place, and what its comparisons find. -/
theorem mem_replayMismatches (expected : ReplayExpectation) :
    ∀ (records : List EvidenceRecord) (seen : List String),
      m ∈ replayMismatches (some expected) seen records ↔ m ∈ replayMismatches none seen records ∨
        ∃ record ∈ records, m ∈ identityMismatches record.receipt expected
  | [], seen => by simp [replayMismatches]
  | record :: rest, seen => by
    rw [replayMismatches, replayMismatches, List.mem_append, List.mem_append, List.mem_append,
      List.mem_append, mem_replayMismatches expected rest]
    simp only [List.not_mem_nil, or_false, List.mem_cons, exists_eq_or_imp]
    tauto

/-- A receipt without a selection leaves every strict field missing. -/
theorem missing_of_uncut {records : List EvidenceRecord} {record : EvidenceRecord}
    (hr : record ∈ records) (h : record.receipt.Uncut) (seen : List String) (f : StrictField) :
    f.label ++ "_MISSING" ∈
      replayMismatches (some (selection.expectation capabilityRef)) seen records := by
  refine (mem_replayMismatches _ records seen).mpr (Or.inr ⟨record, hr, (missing_mem_iff f).mpr ?_⟩)
  exact StrictField.ofReceipt_of_uncut h f

end Mismatches

/-! ## Receipts without a selection -/

/-- The call is the execution of a cut. -/
def CrownOp.cut? {C : Canon} : CrownOp C → Option (CombinatorialBrokerRequest C)
  | .executeCut request _ => some request
  | .kernel _ | .execute .. | .reconcile .. => none

/-- No receipt of the ledger names a selection. -/
def AllUncut (L : MemoryReceiptLedger) (_ : Dict MaterializationRecord) (_ : KernelLog) : Prop :=
  ∀ record ∈ L.records, record.receipt.Uncut

theorem uncutFrame : Frame (fun _ => True) Receipt.Uncut AllUncut where
  call _ _ _ _ _ _ h := h
  push L _ _ record hp h r hr := by
    rcases List.mem_append.mp hr with hr | hr
    · exact h r hr
    · rw [List.mem_singleton.mp hr]
      exact hp
  stamped _ _ _ h := h

section Uncut

variable {rt : Runtime MemoryReceiptLedger} {A : (c : Call) → c.Reply → Prop} {w : MemoryWorld}
  {log : KernelLog} (hL : UsesMemoryLedger rt) (hU : Function.Injective rt.uuid4)

include hL hU

theorem uncut_verify (episodeId : String) (expected : Payload) :
    Keeps A (Framed rt AllUncut) (verify rt episodeId expected) :=
  (uncutFrame.lockedLaw hL hU _).verify (fun _ _ => trivial) (fun _ _ => trivial)
    (fun _ hr => hr.uncut) expected

theorem uncut_act (hC : rt.canon.Total) (intent : ActuationIntent) :
    Keeps A (Framed rt AllUncut) (act rt intent) :=
  (uncutFrame.lockedLaw hL hU _).act hC (fun _ _ => trivial) (fun _ _ _ => trivial)
    (fun _ => Keeps.modify fun _ _ h => h) fun _ hr => hr.uncut

theorem uncut_afterAct (intent : ActuationIntent) (expected : Payload)
    (actuation : ActuationResult) :
    Keeps A (Framed rt AllUncut) (afterAct rt intent expected actuation) := by
  have hlaw := uncutFrame.law (A := A) hL hU
  unfold afterAct
  split
  · split
    · exact hlaw.bind (hlaw.recordNew rfl) fun _ => hlaw.pure _
    · exact hlaw.pure _
  · exact hlaw.bind (uncut_verify hL hU _ _) fun _ => hlaw.bind (hlaw.recordNew rfl) fun _ =>
      hlaw.pure _

theorem uncut_otherOp {op : Op} (hop : ∀ intent, op ≠ .act intent) :
    Keeps A (Framed rt AllUncut) (op.program rt) := by
  have hlaw := uncutFrame.law (A := A) hL hU
  exact LockedLaw.program (uncutFrame.lockedLaw hL hU) (fun _ _ => Keeps.modify fun _ _ h => h)
    (fun _ _ => Keeps.modify fun _ _ h => h) (fun _ _ => Keeps.modify fun _ _ h => h)
    (fun _ authorityRef st before authority =>
      hlaw.teardownAdmitted (fun _ => trivial) (fun _ hr _ => hr.uncut)
        (fun _ => Keeps.modify fun _ _ h => h) (Keeps.modify fun _ _ h => h) authorityRef st before
        authority)
    (fun _ _ => trivial) (fun _ _ _ hr => hr.uncut) hop

theorem uncut_refusePort (intent : ActuationIntent) (reason : String) :
    Keeps A (Framed rt AllUncut) (refusePort rt intent reason) := by
  have hlaw := uncutFrame.law (A := A) hL hU
  refine hlaw.bind (hlaw.state _) fun st => (uncutFrame.lockedLaw hL hU _).withLock ?_
  exact hlaw.bind (hlaw.observeUnlocked (fun _ _ => trivial) st) fun _ =>
    hlaw.bind (hlaw.recordNew rfl) fun _ => hlaw.pure _

/-- Recording a new receipt : an error of the ledger, or one more record. -/
theorem post_recordNew_push (hw : Drawn rt w) (receipt : Receipt)
    {Q : Except Exc Receipt → MemoryWorld → KernelLog → Prop}
    (herr : ∀ e, Q (.error (.ledger e)) w.drawn log)
    (hok : ∀ record, record.receipt = w.stamps rt receipt →
      Drawn rt (w.drawn.recorded (w.ledger.push record) record.receipt) →
      Q (.ok record.receipt) (w.drawn.recorded (w.ledger.push record) record.receipt) log) :
    post A Q (recordNew rt receipt) w log := by
  rw [recordNew_eq]
  exact post_stamp_record hL hU hw receipt (fun e _ => herr e) fun record hrecord hdrawn =>
    hok record hrecord hdrawn

/-- An execution that returns left a receipt, and none that names a selection. -/
theorem uncut_brokerExecute (hC : rt.canon.Total) (cls : RuntimeClass) (request : BrokerRequest)
    (moment : ℤ) (h : Framed rt AllUncut w log) :
    post (S := kernelSig MemoryReceiptLedger) A (fun r w log => Framed rt AllUncut w log ∧
        ∀ t, r = .ok t → w.ledger.records ≠ []) (brokerExecute rt cls request moment) w log := by
  -- what is recorded last
  have hlast : ∀ (receipt : Receipt) (f : Receipt → VerifiedTransition) w log, receipt.Uncut →
      Framed rt AllUncut w log →
      post (S := kernelSig MemoryReceiptLedger) A (fun r w log => Framed rt AllUncut w log ∧
        ∀ t, r = .ok t → w.ledger.records ≠ [])
        (recordNew rt receipt >>= fun r => pure (f r)) w log := by
    intro receipt f w log hreceipt h
    rw [post_bind]
    refine post_recordNew_push hL hU h.1 receipt
      (fun e => ⟨⟨h.1.draw, h.2⟩, fun _ hr => by cases hr⟩) fun record hrecord hdrawn =>
        ⟨⟨hdrawn, uncutFrame.push _ _ _ _ (hrecord ▸ hreceipt) h.2⟩, fun _ _ hnil => ?_⟩
    exact absurd hnil (List.append_ne_nil_of_right_ne_nil _ (List.cons_ne_nil _ _))
  refine post_brokerExecute (fun reason _ => hlast _ _ _ _ rfl h)
    ⟨h, fun _ hr => by cases hr⟩ fun _ _ => ?_
  rw [post_bind]
  refine post_mono (fun r w log h => ?_) _ (uncut_act hL hU hC request.intent w log h)
  cases r with
  | error e => exact ⟨h, fun _ hr => by cases hr⟩
  | ok actuation =>
    rw [post_onOk, settleExecution, post_bind]
    refine post_mono (fun r w log h => ?_) _ (uncut_afterAct hL hU _ _ actuation w log h)
    cases r with
    | error e => exact ⟨h, fun _ hr => by cases hr⟩
    | ok transition => exact hlast _ _ _ _ rfl h

/-- A call that executes no cut. -/
theorem uncut_call (hC : rt.canon.Total) {cls : RuntimeClass} {returned : List VerifiedTransition}
    {op : CrownOp rt.canon} (hop : op.cut? = none) :
    Keeps A (Framed rt AllUncut) (op.program rt cls returned) := by
  have hlaw := uncutFrame.law (A := A) hL hU
  cases op with
  | kernel op =>
    refine hlaw.map ?_ _
    by_cases hact : ∃ intent, op = .act intent
    · obtain ⟨intent, rfl⟩ := hact
      refine hlaw.map ?_ _
      cases cls with
      | reference => exact uncut_act hL hU hC intent
      | production => exact uncut_refusePort hL hU intent _
    · have hact : ∀ intent, op ≠ .act intent := fun intent h => hact ⟨intent, h⟩
      have hother : Keeps A (Framed rt AllUncut) (op.program rt) := uncut_otherOp hL hU hact
      cases op <;> first | exact hother | exact absurd rfl (hact _)
  | execute request moment =>
    refine hlaw.map (fun w log h => ?_) _
    exact post_mono (fun _ _ _ h => h.1) _ (uncut_brokerExecute hL hU hC cls request moment h)
  | executeCut request moment => cases hop
  | reconcile place expected =>
    unfold CrownOp.program
    dsimp only
    split
    · exact hlaw.pure _
    · refine hlaw.map ?_ _
      unfold reconcileUncertain
      split
      · exact hlaw.raise _
      · exact hlaw.bind (uncut_verify hL hU _ _) fun _ => hlaw.bind (hlaw.recordNew rfl) fun _ =>
          hlaw.pure _

/-- The execution of a cut that returns : receipts that name no selection, one at least, and
then the one that names its own. -/
theorem post_executeCut (hC : rt.canon.Total) (cls : RuntimeClass)
    (returned : List VerifiedTransition) (request : CombinatorialBrokerRequest rt.canon) (moment : ℤ)
    (h : Framed rt AllUncut w log) :
    post (S := kernelSig MemoryReceiptLedger) A (fun r w _ => ∀ t, r = .ok (some t) →
        ∃ records record, w.ledger.records = records ++ [record] ∧ records ≠ [] ∧
          (∀ r ∈ records, r.receipt.Uncut) ∧
          ∀ f : StrictField, f.ofReceipt record.receipt = some (f.ofSelection request.selection))
      (CrownOp.program rt cls returned (.executeCut request moment)) w log := by
  refine (post_map _ _).mpr ?_
  rw [combinatorialExecute, post_bind]
  refine post_mono (fun r w log h => ?_) _
    (uncut_brokerExecute hL hU hC cls request.brokerRequest moment h)
  cases r with
  | error e => exact fun _ hr => by cases hr
  | ok transition =>
    rw [post_onOk, post_bind]
    refine post_recordNew_push hL hU h.1.1 _ (fun e _ hr => by cases hr) fun record hrecord _ _ _ =>
      ⟨w.ledger.records, record, rfl, h.2 transition rfl, h.1.2, fun f => ?_⟩
    rw [hrecord]
    cases f <;> rfl

/-- A run that executes no cut. -/
theorem uncut_run (hC : rt.canon.Total) {cls : RuntimeClass} {ω : KernelOracle} :
    ∀ (ops : List (CrownOp rt.canon)) {s : CrownState MemoryReceiptLedger},
      (∀ op ∈ ops, op.cut? = none) → Framed rt AllUncut s.world [] →
        Framed rt AllUncut (s.run rt cls ω ops).world []
  | [], _, _, h => h
  | op :: ops, s, hops, h => by
    have hop := hops op List.mem_cons_self
    have hcall : Framed rt AllUncut (s.call rt cls ω op).2.1 (s.call rt cls ω op).2.2 :=
      s.call_of_post (Q := fun _ w log => Framed rt AllUncut w log)
        (uncut_call hL hU hC hop s.world [] h)
    exact uncut_run hC ops (s := s.step rt cls ω op)
      (fun op hop => hops op (List.mem_cons_of_mem _ hop)) hcall

end Uncut

/-! ## The replay -/

/-- The ledger of a run whose last call is its only execution of a cut, and returns. A replay
held against any selection and capability reports it as not valid : every strict field is
missing from a receipt. A strict field is reported as drifted exactly when the selection of
the execution and the expected one differ in it. -/
theorem cut_replay (rt : Runtime MemoryReceiptLedger) (hC : rt.canon.Total)
    (hL : UsesMemoryLedger rt) (hU : Function.Injective rt.uuid4) (hid : ∀ n, rt.uuid4 n ≠ "")
    (cls : RuntimeClass) (ω : KernelOracle) (pre : List (CrownOp rt.canon))
    (hpre : ∀ op ∈ pre, op.cut? = none) (request : CombinatorialBrokerRequest rt.canon) (moment : ℤ)
    (t : VerifiedTransition)
    (ht : ((CrownState.run rt cls ω { world := newWorld } pre).call rt cls ω
      (.executeCut request moment)).1 = .ok (some t))
    (selection : IrreversibleSelection) (capabilityRef : String) (mode : ReplayMode)
    (allowLiveReexecution : Bool) (hlive : mode = .liveReexecution → allowLiveReexecution = true) :
    let L := (CrownState.run rt cls ω { world := newWorld }
      (pre ++ [.executeCut request moment])).world.ledger
    ∃ report, replayLedger rt.canon L mode (some (selection.expectation capabilityRef))
        allowLiveReexecution = .ok report ∧ report.valid = false ∧
      ∀ f : StrictField, f.label ++ "_MISSING" ∈ report.mismatches ∧
        (f.label ++ "_DRIFT" ∈ report.mismatches ↔
          f.ofSelection request.selection ≠ f.ofSelection selection) := by
  intro L
  obtain ⟨hverify, hparents⟩ :=
    chain_newRun hC hL hU hid cls ω (pre ++ [.executeCut request moment])
  obtain ⟨report, hreport, hmismatches, hvalid⟩ :=
    replayLedger_verified hverify hlive (some (selection.expectation capabilityRef))
  have hnew : Framed rt AllUncut newWorld [] :=
    ⟨fun _ _ h => (by cases h), fun _ h => by cases h⟩
  have hbefore : Framed rt AllUncut
      (CrownState.run rt cls ω { world := newWorld } pre).world [] :=
    uncut_run hL hU hC pre hpre hnew
  have hrun : L = ((CrownState.run rt cls ω { world := newWorld } pre).call rt cls ω
      (.executeCut request moment)).2.1.ledger := by
    simp only [L, CrownState.run_append]
    rfl
  obtain ⟨records, record, hrecords, hne, huncut, hcut⟩ :=
    CrownState.call_of_post
      (post_executeCut hL hU hC cls _ request moment hbefore) t ht
  rw [← hrun] at hrecords
  -- what the comparisons find, since no parent is out of place
  have hmem : ∀ m, m ∈ report.mismatches ↔ ∃ r ∈ records ++ [record],
      m ∈ identityMismatches r.receipt (selection.expectation capabilityRef) := by
    intro m
    rw [hmismatches, mem_replayMismatches, hparents, hrecords]
    simp
  have hmissing : ∀ f : StrictField, f.label ++ "_MISSING" ∈ report.mismatches := by
    intro f
    obtain ⟨first, hfirst⟩ := List.exists_mem_of_ne_nil _ hne
    rw [hmismatches, hrecords]
    exact missing_of_uncut (List.mem_append_left _ hfirst) (huncut first hfirst) [] f
  refine ⟨report, hreport, ?_, fun f => ⟨hmissing f, ?_⟩⟩
  · rw [Bool.eq_false_iff, ne_eq, hvalid]
    exact List.ne_nil_of_mem (hmissing .selectionDigest)
  · rw [hmem]
    constructor
    · rintro ⟨r, hr, hdrift⟩
      obtain ⟨hsome, hne⟩ := (drift_mem_iff f).mp hdrift
      rcases List.mem_append.mp hr with hr | hr
      · exact absurd (StrictField.ofReceipt_of_uncut (huncut r hr) f) hsome
      · rw [List.mem_singleton.mp hr, hcut f] at hne
        exact fun heq => hne (congrArg some heq)
    · intro hne
      refine ⟨record, by simp, (drift_mem_iff f).mpr ?_⟩
      rw [hcut f]
      simpa using hne

/-! ### A cut to look at -/

/-- The digest of a value that is canonical. -/
def sampleDigest (v : Value) : String := (Canon.reference.digest v).toOption.getD ""

theorem digest_sampleDigest {v : Value} (h : v.isCanonical = true) :
    Canon.reference.digest v = .ok (sampleDigest v) := by
  obtain ⟨d, hd⟩ := Canon.reference_total.digest h
  simp [sampleDigest, hd, Except.toOption]

theorem sampleDigest_ne {items : Payload} (h : (Value.dict items).isCanonical = true) :
    sampleDigest (.dict items) ≠ "" :=
  Canon.reference_namesDicts items _ (digest_sampleDigest h)

/-- A selection for the first request. -/
def samplePayload : SelectionPayload :=
  { graphDigest := "graph", explorationDigest := "exploration", pathId := "path", morphismId := "act",
    targetId := "b", actionRef := firstRequest.action.semanticId,
    capabilityRef := firstRequest.action.capabilityRef,
    subjectRef := firstRequest.prepared.subject.semanticId,
    preparedDigest := sampleDigest firstRequest.prepared.modelDump,
    grantDigest := sampleDigest firstRequest.grant.modelDump,
    selectorRef := "urn:gymact:selector" }

theorem prepared_isCanonical : firstRequest.prepared.modelDump.isCanonical = true := by
  decide +kernel

theorem grant_isCanonical : firstRequest.grant.modelDump.isCanonical = true := by
  decide +kernel

theorem samplePayload_isCanonical : samplePayload.modelDump.isCanonical = true := by
  simp [samplePayload, SelectionPayload.modelDump, Value.ofStrings, Value.isCanonical,
    Value.isCanonicalList]

theorem samplePayload_filled :
    ∀ field ∈ samplePayload.required ++ [sampleDigest samplePayload.modelDump], field ≠ "" := by
  have hprepared := sampleDigest_ne prepared_isCanonical
  have hgrant := sampleDigest_ne grant_isCanonical
  have hselection := sampleDigest_ne samplePayload_isCanonical
  refine List.forall_mem_append.mpr ⟨?_, List.forall_mem_singleton.mpr hselection⟩
  simp only [SelectionPayload.required, List.forall_mem_cons]
  exact ⟨by decide, by decide, by decide, by decide, by decide, by decide, by decide, by decide,
    hprepared, hgrant, by decide, List.forall_mem_nil _⟩

def sampleSelection : IrreversibleSelection :=
  ⟨samplePayload, sampleDigest samplePayload.modelDump, samplePayload_filled, nofun⟩

theorem sampleSelection_bound : CutBound .reference sampleSelection firstRequest where
  verified := by
    have hd : Canon.reference.digest samplePayload.modelDump = .ok sampleSelection.selectionDigest :=
      digest_sampleDigest samplePayload_isCanonical
    have hpayload : sampleSelection.toSelectionPayload = samplePayload := rfl
    simp only [IrreversibleSelection.verifyDigest, hpayload, hd, bind, Except.bind, pure,
      Except.pure, beq_self_eq_true]
  actionRef := rfl
  capabilityRef := rfl
  subjectRef := rfl
  preparedDigest := digest_sampleDigest prepared_isCanonical
  grantDigest := digest_sampleDigest grant_isCanonical

def sampleCut : CombinatorialBrokerRequest .reference :=
  ⟨sampleSelection, firstRequest, sampleSelection_bound⟩

/-- A materialization, before the execution of the cut. -/
def sampleMaterialized : List (CrownOp sampleRuntime.canon) :=
  [.kernel (.registerProvider ⟨"memory", false⟩), .kernel (.materialize { idempotencyKey := "m1" })]

/-- The run of a materialization and an honest execution of the cut. -/
def sampleCutRun : CrownState MemoryReceiptLedger :=
  CrownState.run sampleRuntime .production sampleOutside { world := newWorld }
    (sampleMaterialized ++ [.executeCut sampleCut 0])

/-- A materialization and an honest execution, which stands alive. Held against the selection
and the capability of the execution, the replay of its ledger is not valid. -/
theorem honest_cut_refused :
    sampleCutRun.returned.map VerifiedTransition.standing = [.alive] ∧
      ∃ report, replayLedger sampleRuntime.canon sampleCutRun.world.ledger .evidenceReplay
          (some (sampleCut.selection.expectation sampleCut.brokerRequest.action.capabilityRef))
          false = .ok report ∧ report.valid = false := by
  refine ⟨by decide +kernel, ?_⟩
  obtain ⟨hverify, -⟩ := chain_newRun Canon.reference_total (fun _ _ => rfl)
    sampleRuntime_uuid4_injective sampleRuntime_uuid4_ne .production sampleOutside
    (sampleMaterialized ++ [.executeCut sampleCut 0])
  have hlive : ReplayMode.evidenceReplay = .liveReexecution → false = true := by decide
  obtain ⟨report, hreport, hmismatches, hvalid⟩ := replayLedger_verified hverify hlive
    (some (sampleCut.selection.expectation sampleCut.brokerRequest.action.capabilityRef))
  obtain ⟨record, hrecord, huncut⟩ :
      ∃ record ∈ sampleCutRun.world.ledger.records, record.receipt.Uncut := by
    have hfirst : (sampleCutRun.world.ledger.records.head?.map
        fun record => record.receipt.cutFields) = some (List.replicate 5 none) := by decide +kernel
    obtain ⟨record, hhead, huncut⟩ := Option.map_eq_some_iff.mp hfirst
    exact ⟨record, List.mem_of_head? hhead, huncut⟩
  refine ⟨report, hreport, ?_⟩
  rw [Bool.eq_false_iff, ne_eq, hvalid, hmismatches]
  exact List.ne_nil_of_mem (missing_of_uncut hrecord huncut [] .selectionDigest)

theorem cut_replay_sample :
    ∃ report, replayLedger sampleRuntime.canon sampleCutRun.world.ledger .evidenceReplay
        (some (sampleCut.selection.expectation sampleCut.brokerRequest.action.capabilityRef))
        false = .ok report ∧ report.valid = false ∧
      ∀ f : StrictField, f.label ++ "_DRIFT" ∉ report.mismatches := by
  have hreturns : ((CrownState.run sampleRuntime .production sampleOutside { world := newWorld }
      sampleMaterialized).call sampleRuntime .production sampleOutside
        (.executeCut sampleCut 0)).1.toOption.join.isSome = true := by decide +kernel
  obtain ⟨t, ht⟩ := Option.isSome_iff_exists.mp hreturns
  cases hcall : ((CrownState.run sampleRuntime .production sampleOutside { world := newWorld }
      sampleMaterialized).call sampleRuntime .production sampleOutside (.executeCut sampleCut 0)).1 with
  | error e => simp [hcall, Except.toOption] at ht
  | ok t? =>
    obtain rfl : t? = some t := by simpa [hcall, Except.toOption] using ht
    obtain ⟨report, hreport, hinvalid, hfields⟩ := cut_replay sampleRuntime Canon.reference_total
      (fun _ _ => rfl) sampleRuntime_uuid4_injective sampleRuntime_uuid4_ne .production sampleOutside
      sampleMaterialized (by decide) sampleCut 0 t hcall sampleCut.selection
      sampleCut.brokerRequest.action.capabilityRef .evidenceReplay false (by decide)
    exact ⟨report, hreport, hinvalid, fun f hdrift => (hfields f).2.mp hdrift rfl⟩

end GymAct
