import GymAct.CrownRuntime
import GymAct.Maximal

/-!
# The irreversible cut

`cut.py` : one admitted DO edge of an exploration is selected for an action
(`selectIrreversibleCut`), a broker request is bound to the selection
(`CombinatorialBrokerRequest`), and the broker executes it and receipts the selection.

`cut_denotes` : the edge is compared with the action nowhere. Its binding names the
consequence of the action, and of every request manufactured from the selection, exactly
when a gate refuses, or the edge was bound to that action and subject and the request
brings an action with the same verifier and effects.
-/

namespace GymAct

open Coop Coop.Prog

/-! ## `cut.py` -/

/-- What a selection is the digest of. -/
structure SelectionPayload where
  graphDigest : String
  explorationDigest : String
  pathId : String
  morphismId : String
  targetId : String
  actionRef : String
  capabilityRef : String
  subjectRef : String
  preparedDigest : String
  grantDigest : String
  selectorRef : String
  basisRefs : List String := []
  deriving DecidableEq, Repr

def SelectionPayload.modelDump (p : SelectionPayload) : Value :=
  .dict [("graph_digest", .str p.graphDigest), ("exploration_digest", .str p.explorationDigest),
    ("path_id", .str p.pathId), ("morphism_id", .str p.morphismId),
    ("target_id", .str p.targetId), ("action_ref", .str p.actionRef),
    ("capability_ref", .str p.capabilityRef), ("subject_ref", .str p.subjectRef),
    ("prepared_digest", .str p.preparedDigest), ("grant_digest", .str p.grantDigest),
    ("selector_ref", .str p.selectorRef), ("basis_refs", .ofStrings p.basisRefs)]

/-- The fields that are not empty. -/
def SelectionPayload.required (p : SelectionPayload) : List String :=
  [p.graphDigest, p.explorationDigest, p.pathId, p.morphismId, p.targetId, p.actionRef,
    p.capabilityRef, p.subjectRef, p.preparedDigest, p.grantDigest, p.selectorRef]

structure IrreversibleSelection extends SelectionPayload where
  selectionDigest : String
  filled : ∀ field ∈ toSelectionPayload.required ++ [selectionDigest], field ≠ ""
  /-- `basis_refs_are_public_identifiers`. -/
  absolute : ∀ reference ∈ toSelectionPayload.basisRefs, ':' ∈ reference.toList
  deriving DecidableEq, Repr

namespace IrreversibleSelection

/-- `IrreversibleSelection(…)`. -/
def construct (payload : SelectionPayload) (selectionDigest : String) :
    Except PyError IrreversibleSelection :=
  if hfilled : ∀ field ∈ payload.required ++ [selectionDigest], field ≠ "" then
    if habsolute : ∀ reference ∈ payload.basisRefs, ':' ∈ reference.toList then
      .ok { payload with
        selectionDigest
        filled := hfilled
        absolute := habsolute }
    else .error (valueError "SELECTION_BASIS_REF_MUST_BE_ABSOLUTE")
  else .error ⟨"ValidationError", "IrreversibleSelection"⟩

/-- `verify_digest`. -/
def verifyDigest (C : Canon) (s : IrreversibleSelection) : Except PyError Bool := do
  let d ← C.digest s.toSelectionPayload.modelDump
  pure (d == s.selectionDigest)

end IrreversibleSelection

section Select

variable (C : Canon) (graph : PossibilityGraph) (exploration : ExplorationResult)
  (pathId morphismId : String) (action : ActionDefinition) (prepared : PreparedAction)
  (grant : ExecutionGrant)

/-- The frontier entry of a path and an edge. -/
def ExplorationResult.frontierEdge? (exploration : ExplorationResult) (pathId morphismId : String) :
    Option IrreversibleFrontierEdge :=
  exploration.irreversibleFrontier.find? fun item =>
    item.pathId == pathId && item.morphismId == morphismId

/-- The first morphism of an id. -/
def PossibilityGraph.morphism? (graph : PossibilityGraph) (morphismId : String) :
    Option PossibilityMorphism :=
  graph.morphisms.find? fun item => item.morphismId == morphismId

/-- `select_irreversible_cut`, at a moment. -/
def selectIrreversibleCut (selectorRef : String) (basisRefs : List String)
    (currentRevision : Option String) (moment : ℤ) : Except PyError IrreversibleSelection := do
  let graphDigest ← graph.graphDigest C
  if exploration.graphDigest ≠ graphDigest then
    throw (valueError "POSSIBILITY_GRAPH_DRIFT")
  else if exploration.truncated then
    throw (valueError ("IRREVERSIBLE_SELECTION_FROM_TRUNCATED_CLOSURE_REFUSED:" ++
      String.intercalate "," exploration.truncationReasons))
  else
    match exploration.frontierEdge? pathId morphismId with
    | none => throw (valueError "IRREVERSIBLE_FRONTIER_EDGE_NOT_FOUND")
    | some frontier =>
      if frontier.admitted = false then
        throw (valueError ("IRREVERSIBLE_FRONTIER_NOT_ADMITTED:" ++ frontier.reason))
      else
        match graph.morphism? morphismId with
        | none => throw ⟨"StopIteration", ""⟩
        | some morphism =>
          if morphism.phase ≠ .do then throw (valueError "SELECTED_MORPHISM_IS_NOT_DO")
          else if prepared.actionRef ≠ action.semanticId then
            throw (valueError "SELECTION_ACTION_IDENTITY_MISMATCH")
          else
            let admission := admitExecution action prepared grant currentRevision moment
            if admission.admitted = false then
              throw (valueError ("SELECTION_GRANT_NOT_ADMITTED:" ++ admission.reason))
            else
              let explorationDigest ← C.digest exploration.modelDump
              let preparedDigest ← C.digest prepared.modelDump
              let grantDigest ← C.digest grant.modelDump
              let payload : SelectionPayload :=
                { graphDigest, explorationDigest, pathId, morphismId,
                  targetId := frontier.targetId, actionRef := action.semanticId,
                  capabilityRef := action.capabilityRef,
                  subjectRef := prepared.subject.semanticId, preparedDigest, grantDigest,
                  selectorRef, basisRefs }
              let selectionDigest ← C.digest payload.modelDump
              IrreversibleSelection.construct payload selectionDigest

end Select

/-- `require_exact_cut_binding` raises nothing. -/
structure CutBound (C : Canon) (selection : IrreversibleSelection) (request : BrokerRequest) :
    Prop where
  verified : selection.verifyDigest C = .ok true
  actionRef : selection.actionRef = request.action.semanticId
  capabilityRef : selection.capabilityRef = request.action.capabilityRef
  subjectRef : selection.subjectRef = request.prepared.subject.semanticId
  preparedDigest : C.digest request.prepared.modelDump = .ok selection.preparedDigest
  grantDigest : C.digest request.grant.modelDump = .ok selection.grantDigest

/-- A broker request whose irreversible selection is bound to it. -/
structure CombinatorialBrokerRequest (C : Canon) where
  selection : IrreversibleSelection
  brokerRequest : BrokerRequest
  bound : CutBound C selection brokerRequest

/-- `CombinatorialBrokerRequest(…)`. -/
def CombinatorialBrokerRequest.construct (C : Canon) (selection : IrreversibleSelection)
    (request : BrokerRequest) : Except PyError (CombinatorialBrokerRequest C) :=
  match hverified : selection.verifyDigest C with
  | .error e => .error e
  | .ok false => .error (valueError "IRREVERSIBLE_SELECTION_DIGEST_MISMATCH")
  | .ok true =>
    if haction : selection.actionRef = request.action.semanticId then
      if hcapability : selection.capabilityRef = request.action.capabilityRef then
        if hsubject : selection.subjectRef = request.prepared.subject.semanticId then
          match hprepared : C.digest request.prepared.modelDump with
          | .error e => .error e
          | .ok preparedDigest =>
            if hp : selection.preparedDigest = preparedDigest then
              match hgrant : C.digest request.grant.modelDump with
              | .error e => .error e
              | .ok grantDigest =>
                if hg : selection.grantDigest = grantDigest then
                  .ok ⟨selection, request, hverified, haction, hcapability, hsubject,
                    hp ▸ hprepared, hg ▸ hgrant⟩
                else .error (valueError "IRREVERSIBLE_SELECTION_GRANT_DRIFT")
            else .error (valueError "IRREVERSIBLE_SELECTION_PREPARED_DRIFT")
        else .error (valueError "IRREVERSIBLE_SELECTION_SUBJECT_DRIFT")
      else .error (valueError "IRREVERSIBLE_SELECTION_CAPABILITY_DRIFT")
    else .error (valueError "IRREVERSIBLE_SELECTION_ACTION_DRIFT")

/-- `manufacture_broker_request`. -/
def manufactureBrokerRequest (C : Canon) (selection : IrreversibleSelection)
    (action : ActionDefinition) (prepared : PreparedAction) (grant : ExecutionGrant)
    (currentRevision : Option String) (expected : Option Payload) :
    Except PyError (CombinatorialBrokerRequest C) :=
  CombinatorialBrokerRequest.construct C selection
    { action, prepared, grant, currentRevision, expected := expected.getD [] }

section Broker

variable {Λ : Type} (rt : Runtime Λ)

/-- The receipt that binds a transition to its selection. -/
def combinatorialReceipt (selection : IrreversibleSelection) (source : Receipt) : Receipt :=
  { source with
    receiptId := ""
    occurredAt := ""
    possibilityGraphDigest := some selection.graphDigest
    possibilityExplorationDigest := some selection.explorationDigest
    possibilityPathId := some selection.pathId
    possibilityMorphismId := some selection.morphismId
    selectionDigest := some selection.selectionDigest
    selectionBasisRefs := selection.basisRefs
    parentReceiptIds := source.parentReceiptIds ++ [source.receiptId] }

/-- `CombinatorialBRCEBroker.execute`, at a moment. -/
def combinatorialExecute (cls : RuntimeClass) (request : CombinatorialBrokerRequest rt.canon)
    (moment : ℤ) : M Λ VerifiedTransition := do
  let transition ← brokerExecute rt cls request.brokerRequest moment
  let receipt ← recordNew rt (combinatorialReceipt request.selection transition.receipt)
  pure { transition with receipt }

end Broker

/-! ## What a cut denotes -/

section Denotes

variable {C : Canon} {graph : PossibilityGraph} {exploration : ExplorationResult}
  {pathId morphismId : String} {action : ActionDefinition} {prepared : PreparedAction}
  {grant : ExecutionGrant} {selectorRef : String} {basisRefs : List String}
  {currentRevision : Option String} {moment : ℤ} {selection : IrreversibleSelection}

/-- The gates of a cut are open. -/
structure Cuttable (C : Canon) (graph : PossibilityGraph) (exploration : ExplorationResult)
    (pathId morphismId : String) (action : ActionDefinition) (prepared : PreparedAction)
    (grant : ExecutionGrant) (selectorRef : String) (basisRefs : List String)
    (currentRevision : Option String) (moment : ℤ) : Prop where
  graphDigest : graph.graphDigest C = .ok exploration.graphDigest
  complete : exploration.truncated = false
  frontier : ∃ edge, exploration.frontierEdge? pathId morphismId = some edge ∧
    edge.admitted = true ∧ edge.targetId ≠ ""
  morphism : ∃ morphism, graph.morphism? morphismId = some morphism ∧ morphism.phase = .do
  identity : prepared.actionRef = action.semanticId
  admitted : (admitExecution action prepared grant currentRevision moment).admitted = true
  digests : CanonicalIn C exploration.modelDump ∧ CanonicalIn C prepared.modelDump ∧
    CanonicalIn C grant.modelDump
  named : pathId ≠ "" ∧ selectorRef ≠ ""
  absolute : ∀ reference ∈ basisRefs, ':' ∈ reference.toList

/-- The edge of an id is bound to the consequence of an action on a subject. -/
def EdgeDenotes (C : Canon) (graph : PossibilityGraph) (morphismId : String)
    (action : ActionDefinition) (subject : SubjectRef) : Prop :=
  ∃ morphism binding, graph.morphism? morphismId = some morphism ∧ morphism.phase = .do ∧
    readConsequenceBinding morphism.attributes = .ok (some binding) ∧
      bindActionConsequence C action subject = .ok binding

/-- What a selection holds of the action it was made for. -/
structure SelectedFor (C : Canon) (action : ActionDefinition) (prepared : PreparedAction)
    (grant : ExecutionGrant) (selection : IrreversibleSelection) : Prop where
  actionRef : selection.actionRef = action.semanticId
  capabilityRef : selection.capabilityRef = action.capabilityRef
  subjectRef : selection.subjectRef = prepared.subject.semanticId
  preparedDigest : C.digest prepared.modelDump = .ok selection.preparedDigest
  grantDigest : C.digest grant.modelDump = .ok selection.grantDigest
  verified : selection.verifyDigest C = .ok true

theorem construct_eq_ok {payload : SelectionPayload} {selectionDigest : String}
    (h : IrreversibleSelection.construct payload selectionDigest = .ok selection) :
    selection.toSelectionPayload = payload ∧ selection.selectionDigest = selectionDigest := by
  unfold IrreversibleSelection.construct at h
  split at h
  · split at h
    · cases h
      exact ⟨rfl, rfl⟩
    · cases h
  · cases h

theorem canonicalIn_of_digest {v : Value} {d : String} (h : C.digest v = .ok d) :
    CanonicalIn C v := by
  unfold Canon.digest at h
  cases hb : C.canonicalBytes v with
  | ok b => exact ⟨b, hb⟩
  | error e => simp [hb, Except.map] at h

/-- A cut that is returned passed every gate, and names its action. -/
theorem cuttable_of_select (h : selectIrreversibleCut C graph exploration pathId morphismId action
      prepared grant selectorRef basisRefs currentRevision moment = .ok selection) :
    Cuttable C graph exploration pathId morphismId action prepared grant selectorRef basisRefs
        currentRevision moment ∧ SelectedFor C action prepared grant selection := by
  unfold selectIrreversibleCut at h
  simp only [bind, Except.bind, throw, throwThe, MonadExceptOf.throw] at h
  split at h
  · cases h
  rename_i graphDigest hgraph
  split at h
  · cases h
  rename_i hdrift
  split at h
  · cases h
  rename_i hcomplete
  split at h
  · cases h
  rename_i frontier hfrontier
  split at h
  · cases h
  rename_i hadmittedEdge
  split at h
  · cases h
  rename_i morphism hmorphism
  split at h
  · cases h
  rename_i hphase
  split at h
  · cases h
  rename_i hidentity
  split at h
  · cases h
  rename_i hadmitted
  split at h
  · cases h
  rename_i explorationDigest hexploration
  split at h
  · cases h
  rename_i preparedDigest hprepared
  split at h
  · cases h
  rename_i grantDigest hgrant
  split at h
  · cases h
  rename_i selectionDigest hselection
  obtain ⟨hpayload, hdigest⟩ := construct_eq_ok h
  have hfilled := selection.filled
  have habsolute := selection.absolute
  rw [hpayload] at hfilled habsolute
  have hnonempty : ∀ field, field ∈ [frontier.targetId, pathId, selectorRef] → field ≠ "" := by
    intro field hfield
    refine hfilled field ?_
    simp only [SelectionPayload.required, List.mem_append, List.mem_cons, List.not_mem_nil] at hfield ⊢
    tauto
  refine ⟨⟨?_, by simpa using hcomplete, ⟨frontier, hfrontier, by simpa using hadmittedEdge,
      hnonempty _ (by simp)⟩, ⟨morphism, hmorphism, not_not.mp hphase⟩, not_not.mp hidentity,
      by simpa using hadmitted, ⟨canonicalIn_of_digest hexploration, canonicalIn_of_digest hprepared,
        canonicalIn_of_digest hgrant⟩, ⟨hnonempty _ (by simp), hnonempty _ (by simp)⟩, habsolute⟩, ?_⟩
  · rw [hgraph, not_not.mp hdrift]
  · refine ⟨by rw [hpayload], by rw [hpayload], by rw [hpayload], by rw [hpayload]; exact hprepared,
      by rw [hpayload]; exact hgrant, ?_⟩
    unfold IrreversibleSelection.verifyDigest
    rw [hpayload, hselection, hdigest]
    simp [bind, Except.bind, pure, Except.pure]

/-- A cut whose gates are open is returned. -/
theorem select_of_cuttable (hC : C.Total) (hN : C.NamesDicts)
    (h : Cuttable C graph exploration pathId morphismId action prepared grant selectorRef basisRefs
      currentRevision moment) :
    ∃ selection, selectIrreversibleCut C graph exploration pathId morphismId action prepared grant
      selectorRef basisRefs currentRevision moment = .ok selection := by
  obtain ⟨frontier, hfrontier, hadmittedEdge, htarget⟩ := h.frontier
  obtain ⟨morphism, hmorphism, hphase⟩ := h.morphism
  obtain ⟨hexploration, hprepared, hgrant⟩ := h.digests
  obtain ⟨explorationDigest, hexploration⟩ := hexploration.digest
  obtain ⟨preparedDigest, hprepared⟩ := hprepared.digest
  obtain ⟨grantDigest, hgrant⟩ := hgrant.digest
  let payload : SelectionPayload :=
    { graphDigest := exploration.graphDigest, explorationDigest, pathId, morphismId,
      targetId := frontier.targetId, actionRef := action.semanticId,
      capabilityRef := action.capabilityRef, subjectRef := prepared.subject.semanticId,
      preparedDigest, grantDigest, selectorRef, basisRefs }
  obtain ⟨selectionDigest, hselection⟩ := hC.digest (v := payload.modelDump)
    (by simp [SelectionPayload.modelDump])
  have hid : morphismId ≠ "" := by
    have := List.find?_some hmorphism
    rw [← (by simpa using this : morphism.morphismId = morphismId)]
    exact morphism.morphismId_ne
  have hfilled : ∀ field ∈ payload.required ++ [selectionDigest], field ≠ "" := by
    simp only [payload, SelectionPayload.required, List.cons_append, List.nil_append,
      List.forall_mem_cons]
    exact ⟨hN _ _ h.graphDigest, hN _ _ hexploration, h.named.1, hid, htarget, action.semanticId_ne,
      action.capabilityRef_ne, prepared.subject.semanticId_ne, hN _ _ hprepared, hN _ _ hgrant,
      h.named.2, hN _ _ hselection, by simp⟩
  have hconstruct : ∃ selection,
      IrreversibleSelection.construct payload selectionDigest = .ok selection := by
    unfold IrreversibleSelection.construct
    rw [dif_pos hfilled, dif_pos h.absolute]
    exact ⟨_, rfl⟩
  unfold selectIrreversibleCut
  simp only [bind, Except.bind, h.graphDigest, ne_eq, not_true_eq_false, if_false, h.complete,
    Bool.false_eq_true, hfrontier, hadmittedEdge, Bool.true_eq_false, hmorphism, hphase, h.identity,
    h.admitted, hexploration, hprepared, hgrant]
  rw [hselection]
  exact hconstruct

/-- What the manufacture of a request compares with the selection's own action. -/
structure SameCut (C : Canon) (action : ActionDefinition) (prepared : PreparedAction)
    (grant : ExecutionGrant) (action' : ActionDefinition) (prepared' : PreparedAction)
    (grant' : ExecutionGrant) : Prop where
  actionRef : action.semanticId = action'.semanticId
  capabilityRef : action.capabilityRef = action'.capabilityRef
  subjectRef : prepared.subject.semanticId = prepared'.subject.semanticId
  prepared : C.digest prepared'.modelDump = C.digest prepared.modelDump
  grant : C.digest grant'.modelDump = C.digest grant.modelDump

theorem cutBound_of_construct {request : BrokerRequest} {combined : CombinatorialBrokerRequest C}
    (h : CombinatorialBrokerRequest.construct C selection request = .ok combined) :
    CutBound C selection request := by
  unfold CombinatorialBrokerRequest.construct at h
  split at h
  · cases h
  · cases h
  split at h
  · split at h
    · split at h
      · split at h
        · cases h
        · split at h
          · split at h
            · cases h
            · split at h
              · cases h
                exact ⟨‹_›, ‹_›, ‹_›, ‹_›, by rw [‹selection.preparedDigest = _›]; assumption,
                  by rw [‹selection.grantDigest = _›]; assumption⟩
              · cases h
          · cases h
      · cases h
    · cases h
  · cases h

theorem construct_of_cutBound {request : BrokerRequest} (h : CutBound C selection request) :
    ∃ combined, CombinatorialBrokerRequest.construct C selection request = .ok combined := by
  unfold CombinatorialBrokerRequest.construct
  split
  case h_1 e he => exact absurd (h.verified.symm.trans he) (by simp)
  case h_2 he => exact absurd (h.verified.symm.trans he) (by simp)
  case h_3 =>
    rw [dif_pos h.actionRef, dif_pos h.capabilityRef, dif_pos h.subjectRef]
    split
    case h_1 e he => exact absurd (h.preparedDigest.symm.trans he) (by simp)
    case h_2 preparedDigest he =>
      rw [dif_pos (Except.ok.inj (h.preparedDigest.symm.trans he))]
      split
      case h_1 e he => exact absurd (h.grantDigest.symm.trans he) (by simp)
      case h_2 grantDigest he =>
        rw [dif_pos (Except.ok.inj (h.grantDigest.symm.trans he))]
        exact ⟨_, rfl⟩

variable {action' : ActionDefinition} {prepared' : PreparedAction} {grant' : ExecutionGrant}

/-- A request is manufactured from a cut exactly when it is the same cut. -/
theorem manufacture_iff (hS : SelectedFor C action prepared grant selection)
    (revision' : Option String) (expected' : Option Payload) :
    (∃ combined, manufactureBrokerRequest C selection action' prepared' grant' revision' expected' =
      .ok combined) ↔ SameCut C action prepared grant action' prepared' grant' := by
  constructor
  · rintro ⟨combined, h⟩
    have hB := cutBound_of_construct h
    exact ⟨hS.actionRef.symm.trans hB.actionRef, hS.capabilityRef.symm.trans hB.capabilityRef,
      hS.subjectRef.symm.trans hB.subjectRef, hB.preparedDigest.trans hS.preparedDigest.symm,
      hB.grantDigest.trans hS.grantDigest.symm⟩
  · intro h
    exact construct_of_cutBound ⟨hS.verified, hS.actionRef.trans h.actionRef,
      hS.capabilityRef.trans h.capabilityRef, hS.subjectRef.trans h.subjectRef,
      h.prepared.trans hS.preparedDigest, h.grant.trans hS.grantDigest⟩

/-- The edge is bound to the same consequence when nothing of it differs. -/
theorem bindActionConsequence_congr {subject subject' : SubjectRef}
    (haction : action.semanticId = action'.semanticId)
    (hcapability : action.capabilityRef = action'.capabilityRef)
    (hsubject : subject.semanticId = subject'.semanticId)
    (hverifier : action'.verification.observerRef = action.verification.observerRef)
    (heffects : expectedEffectDigest C action' = expectedEffectDigest C action) :
    bindActionConsequence C action' subject' = bindActionConsequence C action subject := by
  simp only [bindActionConsequence, heffects, haction, hcapability, hsubject, hverifier]

theorem bindActionConsequence_eq_ok {subject : SubjectRef} {binding : ConsequenceBinding}
    (h : bindActionConsequence C action subject = .ok binding) :
    binding.actionRef = action.semanticId ∧
      binding.verifierRef = action.verification.observerRef ∧
        expectedEffectDigest C action = .ok binding.expectedEffectDigest := by
  unfold bindActionConsequence at h
  cases he : expectedEffectDigest C action with
  | error e => simp [he, bind, Except.bind] at h
  | ok effects =>
    simp only [he, bind, Except.bind, ConsequenceBinding.construct] at h
    split at h
    · cases h
      exact ⟨rfl, rfl, rfl⟩
    · cases h

/-- The edge of every returned cut, and of every request manufactured from it, is bound to
the consequence of its action exactly when a gate refuses the cut, or the edge was bound to
that action and subject and the request, where it is manufactured, brings an action with
the same verifier and the same effects. -/
theorem cut_denotes (hC : C.Total) (hN : C.NamesDicts) (graph : PossibilityGraph)
    (exploration : ExplorationResult) (pathId morphismId : String) (action : ActionDefinition)
    (prepared : PreparedAction) (grant : ExecutionGrant) (selectorRef : String)
    (basisRefs : List String) (currentRevision : Option String) (moment : ℤ)
    (action' : ActionDefinition) (prepared' : PreparedAction) (grant' : ExecutionGrant)
    (revision' : Option String) (expected' : Option Payload) :
    (∀ selection, selectIrreversibleCut C graph exploration pathId morphismId action prepared grant
          selectorRef basisRefs currentRevision moment = .ok selection →
        EdgeDenotes C graph morphismId action prepared.subject ∧
          ∀ combined, manufactureBrokerRequest C selection action' prepared' grant' revision'
              expected' = .ok combined →
            EdgeDenotes C graph morphismId action' prepared'.subject) ↔
      (Cuttable C graph exploration pathId morphismId action prepared grant selectorRef basisRefs
          currentRevision moment →
        EdgeDenotes C graph morphismId action prepared.subject ∧
          (SameCut C action prepared grant action' prepared' grant' →
            action'.verification.observerRef = action.verification.observerRef ∧
              expectedEffectDigest C action' = expectedEffectDigest C action)) := by
  constructor
  · intro h hcut
    obtain ⟨selection, hselect⟩ := select_of_cuttable hC hN hcut
    obtain ⟨hdenotes, hrequest⟩ := h selection hselect
    refine ⟨hdenotes, fun hsame => ?_⟩
    obtain ⟨combined, hcombined⟩ :=
      (manufacture_iff (cuttable_of_select hselect).2 revision' expected').mpr hsame
    obtain ⟨morphism, binding, hm, -, hread, hbind⟩ := hdenotes
    obtain ⟨morphism', binding', hm', -, hread', hbind'⟩ := hrequest combined hcombined
    -- one edge carries one binding
    obtain rfl : morphism = morphism' := Option.some.inj (hm.symm.trans hm')
    obtain rfl : binding = binding' := Option.some.inj (Except.ok.inj (hread.symm.trans hread'))
    obtain ⟨-, hverifier, heffects⟩ := bindActionConsequence_eq_ok hbind
    obtain ⟨-, hverifier', heffects'⟩ := bindActionConsequence_eq_ok hbind'
    exact ⟨hverifier'.symm.trans hverifier, heffects'.trans heffects.symm⟩
  · intro h selection hselect
    obtain ⟨hcut, hS⟩ := cuttable_of_select hselect
    obtain ⟨hdenotes, hsame⟩ := h hcut
    refine ⟨hdenotes, fun combined hcombined => ?_⟩
    have hsame' := (manufacture_iff hS revision' expected').mp ⟨combined, hcombined⟩
    obtain ⟨hverifier, heffects⟩ := hsame hsame'
    obtain ⟨morphism, binding, hm, hphase, hread, hbind⟩ := hdenotes
    refine ⟨morphism, binding, hm, hphase, hread, ?_⟩
    rw [bindActionConsequence_congr hsame'.actionRef hsame'.capabilityRef hsame'.subjectRef
      hverifier heffects, hbind]

end Denotes

/-! ### A cut to look at -/

/-- The consequence of the sample action, which has no effects. -/
def sampleBinding : ConsequenceBinding :=
  { actionRef := sampleAction.semanticId, subjectRef := sampleSubject.semanticId,
    capabilityRef := sampleAction.capabilityRef,
    verifierRef := sampleAction.verification.observerRef, expectedEffectDigest := "[]" }

/-- The DO edge of the sample graph, bound to the sample action. -/
def boundEdge : PossibilityMorphism :=
  { sampleDoEdge with
    attributes := consequenceBindingAttributes sampleBinding
    powerless := by decide +kernel }

def boundGraph : PossibilityGraph := { sampleGraph with morphisms := [sampleEdge, boundEdge] }

/-- What the explorer finds from `a` in the bound graph. -/
def boundExploration : Option (Except PyError ExplorationResult) :=
  exploreWithin .reference boundGraph sampleContext sampleBounds ["a"] 6

/-- The edge found by the explorer is cut for the sample request. -/
theorem select_of_foundDo (graph : PossibilityGraph) (startIds : List String) (fuel : ℕ)
    (edge : PossibilityMorphism)
    (hfound : foundDo (exploreWithin .reference graph sampleContext sampleBounds startIds fuel) = true)
    (hedge : graph.morphism? "act" = some edge) (hphase : edge.phase = .do) :
    ∃ result pathId, exploreWithin .reference graph sampleContext sampleBounds startIds fuel =
        some (.ok result) ∧
      ∃ selection, selectIrreversibleCut .reference graph result pathId "act"
        (sampleRequest sampleSubject).action (sampleRequest sampleSubject).prepared
        (sampleRequest sampleSubject).grant "urn:gymact:selector" [] none 0 = .ok selection := by
  obtain ⟨result, hresult⟩ : ∃ result, exploreWithin .reference graph sampleContext sampleBounds
      startIds fuel = some (.ok result) := by
    unfold foundDo at hfound
    split at hfound
    · exact ⟨_, ‹_›⟩
    · cases hfound
  rw [hresult] at hfound
  simp only [foundDo, Bool.and_eq_true, beq_iff_eq, List.all_eq_true, bne_iff_ne] at hfound
  obtain ⟨⟨hcomplete, hfrontier⟩, hall⟩ := hfound
  obtain ⟨f, hf⟩ : ∃ f, result.irreversibleFrontier = [f] := by
    rw [← List.length_eq_one_iff]
    simpa using congrArg List.length hfrontier
  rw [hf] at hfrontier hall
  obtain ⟨hmorphism, htarget⟩ : f.morphismId = "act" ∧ f.targetId = "b" := by
    simpa using hfrontier
  obtain ⟨hadmitted, hpath⟩ := hall f (by simp)
  refine ⟨result, f.pathId, hresult, ?_⟩
  refine select_of_cuttable Canon.reference_total Canon.reference_namesDicts
    ⟨graphDigest_of_explore hresult, by simpa using hcomplete, ⟨f, ?_, hadmitted, ?_⟩,
      ⟨edge, hedge, hphase⟩, rfl, by decide +kernel,
      ⟨Canon.reference_total _ result.modelDump_isCanonical, Canon.reference_total _ ?_,
        Canon.reference_total _ ?_⟩, ⟨hpath, by decide⟩, by simp⟩
  · simp [ExplorationResult.frontierEdge?, hf, hmorphism]
  · rw [htarget]
    decide
  · decide +kernel
  · decide +kernel

theorem cut_denotes_sample :
    ∃ result pathId selection, boundExploration = some (.ok result) ∧
      selectIrreversibleCut .reference boundGraph result pathId "act" sampleAction
        (sampleRequest sampleSubject).prepared (sampleRequest sampleSubject).grant
        "urn:gymact:selector" [] none 0 = .ok selection ∧
      EdgeDenotes .reference boundGraph "act" sampleAction sampleSubject := by
  have hdenotes : EdgeDenotes .reference boundGraph "act" sampleAction sampleSubject :=
    ⟨boundEdge, sampleBinding, by decide +kernel, rfl,
      readConsequenceBinding_attributes (c := sampleBinding) (by decide +kernel), by decide +kernel⟩
  obtain ⟨result, pathId, hresult, selection, hselect⟩ :=
    select_of_foundDo boundGraph ["a"] 6 boundEdge (by decide +kernel) (by decide +kernel) rfl
  refine ⟨result, pathId, selection, hresult, hselect, ?_⟩
  exact ((cut_denotes Canon.reference_total Canon.reference_namesDicts boundGraph result pathId
    "act" sampleAction (sampleRequest sampleSubject).prepared (sampleRequest sampleSubject).grant
    "urn:gymact:selector" [] none 0 sampleAction (sampleRequest sampleSubject).prepared
    (sampleRequest sampleSubject).grant none none).mpr
    (fun _ => ⟨hdenotes, fun _ => ⟨rfl, rfl⟩⟩) selection hselect).1

/-- The edge of the sample graph is bound to a deletion, and not to the sample action. -/
theorem not_edgeDenotes_sample :
    ¬ EdgeDenotes .reference sampleGraph "act" sampleAction sampleSubject := by
  rintro ⟨morphism, binding, hm, -, hread, hbind⟩
  have hedge : sampleGraph.morphism? "act" = some sampleDoEdge := by decide +kernel
  have hdeletes : (readConsequenceBinding sampleDoEdge.attributes).map
      (Option.map ConsequenceBinding.actionRef) = .ok (some "urn:gymact:action:delete") := by
    decide +kernel
  obtain rfl : sampleDoEdge = morphism := Option.some.inj (hedge.symm.trans hm)
  rw [hread] at hdeletes
  have haction := (bindActionConsequence_eq_ok hbind).1
  simp only [Except.map, Option.map_some, Except.ok.injEq, Option.some.injEq] at hdeletes
  exact absurd (hdeletes.symm.trans haction) (by decide)

/-- The edge found by the explorer is cut for an action it is not bound to. -/
theorem cut_elsewhere :
    ∃ result pathId, sampleExploration = some (.ok result) ∧
      (∃ selection, selectIrreversibleCut .reference sampleGraph result pathId "act"
        (sampleRequest sampleSubject).action (sampleRequest sampleSubject).prepared
        (sampleRequest sampleSubject).grant "urn:gymact:selector" [] none 0 = .ok selection) ∧
      ¬ EdgeDenotes .reference sampleGraph "act" (sampleRequest sampleSubject).action
        (sampleRequest sampleSubject).prepared.subject := by
  obtain ⟨result, pathId, hresult, hselect⟩ :=
    select_of_foundDo sampleGraph ["a"] 6 sampleDoEdge (by decide +kernel) (by decide +kernel) rfl
  exact ⟨result, pathId, hresult, hselect, not_edgeDenotes_sample⟩

end GymAct
