import GymAct.CausalLog
import GymAct.Combinatorial
import GymAct.Fallible

/-!
# Environment evolution

`environment_evolution.py` : a seed is one exact environment state, a candidate a powerless
proposal of the next, and `EnvironmentEvolutionCourt` admits a candidate against the seed
and an independent validation of it. `advance` makes an admitted candidate the next seed.

`coherent_iff_fresh` : along a chain of advances the histories add up as they should, but
for one thing. Nothing compares the event ids of a candidate with those of the history it
continues, so the ids of the whole history are distinct exactly when each candidate brings
ids its seed does not have.
-/

namespace GymAct

/-! ## Digests and texts -/

def isHexDigit (c : Char) : Bool := ('0' ≤ c && c ≤ '9') || ('a' ≤ c && c ≤ 'f')

/-- 64 hexadecimal digits in lower case. -/
def isHexDigest (s : List Char) : Bool := s.length = 64 && s.all isHexDigit

/-- `^(?:sha256|blake3):[0-9a-f]{64}$`. -/
def isContentDigest (s : String) : Bool :=
  (s.toList.take 7 = "sha256:".toList || s.toList.take 7 = "blake3:".toList) &&
    isHexDigest (s.toList.drop 7)

/-- `^[0-9a-f]{40}$`. -/
def isGitSha (s : String) : Bool := s.length = 40 && s.toList.all isHexDigit

/-- A text `_CONTENT_DIGEST` matches. -/
abbrev ContentDigest := { s : String // isContentDigest s = true }

/-- A text of at least one character. -/
abbrev NonEmptyText := { s : String // s ≠ "" }

/-- `Field(pattern=_CONTENT_DIGEST)`. -/
def ContentDigest.construct (s : String) : Except PyError ContentDigest :=
  if h : isContentDigest s = true then .ok ⟨s, h⟩
  else .error ⟨"ValidationError", "String should match pattern '^(?:sha256|blake3):[0-9a-f]\x7b64\x7d$'"⟩

/-- `Field(min_length=1)`. -/
def NonEmptyText.construct (s : String) : Except PyError NonEmptyText :=
  if h : s ≠ "" then .ok ⟨s, h⟩
  else .error ⟨"ValidationError", "String should have at least 1 character"⟩

/-- `task_request_digest`. -/
def Canon.taskRequestDigest (C : Canon) (value : String) : String :=
  "blake3:" ++ C.blake3 value.toUTF8.data.toList

/-- A `hexdigest()` has 64 hexadecimal digits. -/
def Canon.Hexadecimal (C : Canon) : Prop := ∀ b, isHexDigest (C.blake3 b).toList = true

/-- `"blake3:" + digest(value)`. -/
def Canon.blake3Digest (C : Canon) (value : Value) : Except PyError String := do
  let d ← C.digest value
  return "blake3:" ++ d

/-! ## Records -/

/-- Counter-default decision families. -/
inductive EvolutionDecisionKind
  | temporal | exclusion | exceptionRule | numerical
  deriving DecidableEq, Repr

def EvolutionDecisionKind.value : EvolutionDecisionKind → String
  | temporal => "temporal"
  | exclusion => "exclusion"
  | exceptionRule => "exception_rule"
  | numerical => "numerical"

inductive EvolutionEventOperation
  | create | modify | rename | delete
  deriving DecidableEq, Repr

def EvolutionEventOperation.value : EvolutionEventOperation → String
  | create => "create"
  | modify => "modify"
  | rename => "rename"
  | delete => "delete"

/-- Ecosystem provenance of a candidate; the literal fields are in `modelDump`. -/
structure EvolutionEcosystemBinding where
  marketplaceCommitSha : { s : String // isGitSha s = true }
  autofdeSelectionDigest : ContentDigest
  sjiraWorkOrderId : NonEmptyText
  sjiraBaseSha : { s : String // isGitSha s = true }
  sa2aCandidateDigest : ContentDigest
  deriving DecidableEq

def EvolutionEcosystemBinding.modelDump (b : EvolutionEcosystemBinding) : Value :=
  .dict [("marketplace_repository", .str "seanchatmangpt/ggen-marketplace"),
    ("marketplace_commit_sha", .str b.marketplaceCommitSha.1),
    ("marketplace_pack", .str "environment-evolution-pack"),
    ("marketplace_pack_version", .str "26.9.25"),
    ("autofde_selection_digest", .str b.autofdeSelectionDigest.1),
    ("sjira_work_order_id", .str b.sjiraWorkOrderId.1), ("sjira_base_sha", .str b.sjiraBaseSha.1),
    ("sa2a_candidate_digest", .str b.sa2aCandidateDigest.1)]

/-- One plausible wrong choice, with the evidence and the check that resolve it. -/
structure EvolutionDecisionPoint where
  decisionId : NonEmptyText
  kind : EvolutionDecisionKind
  plausibleWrongChoice : String
  resolvingEvidenceRefs : List String := []
  rejectingCheckRef : String
  evidenceChainLength : ℕ
  deriving DecidableEq

def EvolutionDecisionPoint.modelDump (p : EvolutionDecisionPoint) : Value :=
  .dict [("decision_id", .str p.decisionId.1), ("kind", .str p.kind.value),
    ("plausible_wrong_choice", .str p.plausibleWrongChoice),
    ("resolving_evidence_refs", .ofStrings p.resolvingEvidenceRefs),
    ("rejecting_check_ref", .str p.rejectingCheckRef),
    ("evidence_chain_length", .int p.evidenceChainLength)]

/-- One causal operation in the generated history. -/
structure EvolutionEvent where
  eventId : NonEmptyText
  sequence : ℕ
  operation : EvolutionEventOperation
  targetRef : NonEmptyText
  consequenceDigest : ContentDigest
  dependsOnEventIds : List String := []
  deriving DecidableEq

def EvolutionEvent.modelDump (e : EvolutionEvent) : Value :=
  .dict [("event_id", .str e.eventId.1), ("sequence", .int e.sequence),
    ("operation", .str e.operation.value), ("target_ref", .str e.targetRef.1),
    ("consequence_digest", .str e.consequenceDigest.1),
    ("depends_on_event_ids", .ofStrings e.dependsOnEventIds)]

/-- An optional digest as a value. -/
def ofDigest (d : Option ContentDigest) : Value := .ofOption (d.map Subtype.val)

/-- The environment state from which the next variant may be proposed. -/
structure EvolutionSeed (C : Canon) where
  seedId : NonEmptyText
  generation : ℕ
  environmentDigest : ContentDigest
  taskRequest : String
  taskRequestDigest : ContentDigest
  referenceOutcomeDigest : ContentDigest
  evaluatorDigest : ContentDigest
  historyDigest : ContentDigest
  historyEventIds : List String := []
  lastEventSequence : ℤ
  minEvidenceChainLength : ℕ := 1
  sourceCandidateDigest : Option ContentDigest := none
  lineageDigest : Option ContentDigest := none
  sequence_ge : -1 ≤ lastEventSequence
  chain_ge : 1 ≤ minEvidenceChainLength
  task_bound : taskRequestDigest.1 = C.taskRequestDigest taskRequest
  history_placed : historyEventIds ≠ [] → (historyEventIds.length : ℤ) - 1 ≤ lastEventSequence

namespace EvolutionSeed

variable {C : Canon} (seed : EvolutionSeed C)

def modelDump : Value :=
  .dict [("seed_id", .str seed.seedId.1), ("generation", .int seed.generation),
    ("environment_digest", .str seed.environmentDigest.1), ("task_request", .str seed.taskRequest),
    ("task_request_digest", .str seed.taskRequestDigest.1),
    ("reference_outcome_digest", .str seed.referenceOutcomeDigest.1),
    ("evaluator_digest", .str seed.evaluatorDigest.1), ("history_digest", .str seed.historyDigest.1),
    ("history_event_ids", .ofStrings seed.historyEventIds),
    ("last_event_sequence", .int seed.lastEventSequence),
    ("min_evidence_chain_length", .int seed.minEvidenceChainLength),
    ("source_candidate_digest", ofDigest seed.sourceCandidateDigest),
    ("lineage_digest", ofDigest seed.lineageDigest)]

/-- `seed_digest`. -/
def seedDigest : Except PyError String := C.blake3Digest seed.modelDump

end EvolutionSeed

/-- `EvolutionSeed(…)`, with its field and model validators. -/
def EvolutionSeed.construct (C : Canon) (seedId : String) (generation : ℕ)
    (environmentDigest : String) (taskRequest taskRequestDigest : String)
    (referenceOutcomeDigest evaluatorDigest historyDigest : String) (historyEventIds : List String)
    (lastEventSequence : ℤ) (minEvidenceChainLength : ℕ) (sourceCandidateDigest : String)
    (lineageDigest : String) : Except PyError (EvolutionSeed C) := do
  let seedId ← NonEmptyText.construct seedId
  let environmentDigest ← ContentDigest.construct environmentDigest
  let taskDigest ← ContentDigest.construct taskRequestDigest
  let referenceOutcomeDigest ← ContentDigest.construct referenceOutcomeDigest
  let evaluatorDigest ← ContentDigest.construct evaluatorDigest
  let historyDigest ← ContentDigest.construct historyDigest
  let sourceCandidateDigest ← ContentDigest.construct sourceCandidateDigest
  let lineageDigest ← ContentDigest.construct lineageDigest
  if hsequence : -1 ≤ lastEventSequence then
    if hchain : 1 ≤ minEvidenceChainLength then
      if htask : taskDigest.1 = C.taskRequestDigest taskRequest then
        if hplaced : historyEventIds ≠ [] → (historyEventIds.length : ℤ) - 1 ≤ lastEventSequence then
          return {
            seedId, generation, environmentDigest, taskRequest, taskRequestDigest := taskDigest,
            referenceOutcomeDigest, evaluatorDigest, historyDigest, historyEventIds,
            lastEventSequence, minEvidenceChainLength, sourceCandidateDigest, lineageDigest,
            sequence_ge := hsequence, chain_ge := hchain, task_bound := htask,
            history_placed := hplaced }
        else throw ⟨"ValidationError", "EVOLUTION_SEED_HISTORY_SEQUENCE_INCONSISTENT"⟩
      else throw ⟨"ValidationError", "EVOLUTION_SEED_TASK_DIGEST_MISMATCH"⟩
    else throw ⟨"ValidationError", "Input should be greater than or equal to 1"⟩
  else throw ⟨"ValidationError", "Input should be greater than or equal to -1"⟩

/-- A digest of a failure, in either case. -/
def isFeedbackDigest (s : String) : Bool :=
  (s.toList.take 7 = "sha256:".toList || s.toList.take 7 = "blake3:".toList) &&
    (s.toList.drop 7).length = 64 &&
    (s.toList.drop 7).all fun c => isHexDigit c || ('A' ≤ c && c ≤ 'F')

/-- A powerless proposal of the next environment state. -/
structure EvolutionCandidate (C : Canon) where
  candidateId : NonEmptyText
  generation : ℕ
  parentEnvironmentDigest : ContentDigest
  parentHistoryDigest : ContentDigest
  taskRequest : String
  taskRequestDigest : ContentDigest
  direction : NonEmptyText
  generatorRef : NonEmptyText
  generatorDigest : ContentDigest
  parentCandidateDigest : Option ContentDigest := none
  parentLineageDigest : Option ContentDigest := none
  mutationOperatorDigest : ContentDigest
  mutationSeed : ℕ
  ecosystem : EvolutionEcosystemBinding
  newEnvironmentDigest : ContentDigest
  referenceOutcomeDigest : ContentDigest
  evaluatorDigest : ContentDigest
  decisionPoints : List EvolutionDecisionPoint := []
  events : List EvolutionEvent := []
  failureFeedbackDigests : List String := []
  generation_ge : 1 ≤ generation
  task_bound : taskRequestDigest.1 = C.taskRequestDigest taskRequest
  feedback_digests : ∀ d ∈ failureFeedbackDigests, isFeedbackDigest d = true
  feedback_distinct : failureFeedbackDigests.Nodup

namespace EvolutionCandidate

variable {C : Canon} (candidate : EvolutionCandidate C)

/-- The ids of its events. -/
def eventIds : List String := candidate.events.map fun e => e.eventId.1

def modelDump : Value :=
  .dict [("candidate_id", .str candidate.candidateId.1), ("generation", .int candidate.generation),
    ("parent_environment_digest", .str candidate.parentEnvironmentDigest.1),
    ("parent_history_digest", .str candidate.parentHistoryDigest.1),
    ("task_request", .str candidate.taskRequest),
    ("task_request_digest", .str candidate.taskRequestDigest.1),
    ("direction", .str candidate.direction.1), ("generator_ref", .str candidate.generatorRef.1),
    ("generator_digest", .str candidate.generatorDigest.1),
    ("parent_candidate_digest", ofDigest candidate.parentCandidateDigest),
    ("parent_lineage_digest", ofDigest candidate.parentLineageDigest),
    ("mutation_operator_digest", .str candidate.mutationOperatorDigest.1),
    ("mutation_seed", .int candidate.mutationSeed), ("ecosystem", candidate.ecosystem.modelDump),
    ("new_environment_digest", .str candidate.newEnvironmentDigest.1),
    ("reference_outcome_digest", .str candidate.referenceOutcomeDigest.1),
    ("evaluator_digest", .str candidate.evaluatorDigest.1),
    ("decision_points", .list (candidate.decisionPoints.map EvolutionDecisionPoint.modelDump)),
    ("events", .list (candidate.events.map EvolutionEvent.modelDump)),
    ("failure_feedback_digests", .ofStrings candidate.failureFeedbackDigests),
    ("authority_ceiling", .str "OBSERVE|SELECT|CONSTRUCT"), ("grants_do_authority", .bool false)]

/-- `mutation_lineage_digest`. -/
def mutationLineageDigest : Except PyError String :=
  C.blake3Digest (.dict [("generation", .int candidate.generation),
    ("parent_environment_digest", .str candidate.parentEnvironmentDigest.1),
    ("parent_history_digest", .str candidate.parentHistoryDigest.1),
    ("parent_candidate_digest", ofDigest candidate.parentCandidateDigest),
    ("parent_lineage_digest", ofDigest candidate.parentLineageDigest),
    ("generator_digest", .str candidate.generatorDigest.1),
    ("mutation_operator_digest", .str candidate.mutationOperatorDigest.1),
    ("mutation_seed", .int candidate.mutationSeed),
    ("failure_feedback_digests",
      .ofStrings (candidate.failureFeedbackDigests.insertionSort fun a b => a ≤ b))])

/-- `candidate_digest`. -/
def candidateDigest : Except PyError String := C.blake3Digest candidate.modelDump

/-- `event_history_digest`. -/
def eventHistoryDigest : Except PyError String :=
  C.blake3Digest (.dict [("parent_history_digest", .str candidate.parentHistoryDigest.1),
    ("events", .list (candidate.events.map EvolutionEvent.modelDump))])

end EvolutionCandidate

/-- Independent observations over a materialized candidate. -/
structure EvolutionValidation where
  observerRef : NonEmptyText
  observerProducerDigest : ContentDigest
  evidenceDigest : ContentDigest
  observedSeedDigest : ContentDigest
  observedCandidateDigest : ContentDigest
  observedParentEnvironmentDigest : ContentDigest
  observedTaskRequestDigest : ContentDigest
  observedEnvironmentDigest : ContentDigest
  observedHistoryDigest : ContentDigest
  evaluatorDigest : ContentDigest
  recurringFailureDigests : List String := []
  structuralChecksPassed : Bool
  historyChecksPassed : Bool
  materialPlacementChecksPassed : Bool
  evaluationAssetSyntaxPassed : Bool
  shortcutAuditPassed : Bool
  newReferencePassed : Bool
  previousReferenceFailed : Bool
  decisionPointChecksPassed : Bool

/-- Construct-only result of the court. -/
structure EvolutionAdmission where
  seedDigest : ContentDigest
  candidateDigest : ContentDigest
  lineageDigest : ContentDigest
  validationEvidenceDigest : ContentDigest
  admitted : Bool
  standing : Standing
  reasons : List String

def EvolutionAdmission.modelDump (a : EvolutionAdmission) : Value :=
  .dict [("seed_digest", .str a.seedDigest.1), ("candidate_digest", .str a.candidateDigest.1),
    ("lineage_digest", .str a.lineageDigest.1),
    ("validation_evidence_digest", .str a.validationEvidenceDigest.1),
    ("admitted", .bool a.admitted), ("standing", .str a.standing.value),
    ("reasons", .ofStrings a.reasons), ("authority", .str "none")]

/-- Replay identity of one admitted transition. -/
structure EvolutionReplayReceipt where
  previousSeedDigest : ContentDigest
  candidateDigest : ContentDigest
  lineageDigest : ContentDigest
  validationEvidenceDigest : ContentDigest
  admissionDigest : ContentDigest
  nextSeedDigest : ContentDigest

/-- One admitted step, with the next seed. -/
structure EvolutionTransition (C : Canon) where
  admission : EvolutionAdmission
  previousSeedDigest : String
  candidateDigest : String
  nextSeed : EvolutionSeed C
  replayReceipt : EvolutionReplayReceipt

/-! ## The court -/

/-- `if condition: reasons.append(reason)`. -/
def reasonIf (condition : Bool) (reason : String) : List String := if condition then [reason] else []

/-- The comparisons with the seed. -/
def lineageReasons {C : Canon} (seed : EvolutionSeed C) (candidate : EvolutionCandidate C) :
    List String :=
  reasonIf (candidate.generation ≠ seed.generation + 1) "GENERATION_DISCONTINUITY" ++
  reasonIf (candidate.parentEnvironmentDigest ≠ seed.environmentDigest)
    "PARENT_ENVIRONMENT_MISMATCH" ++
  reasonIf (candidate.parentHistoryDigest ≠ seed.historyDigest) "PARENT_HISTORY_MISMATCH" ++
  reasonIf (candidate.parentCandidateDigest ≠ seed.sourceCandidateDigest)
    "PARENT_CANDIDATE_MISMATCH" ++
  reasonIf (candidate.parentLineageDigest ≠ seed.lineageDigest) "PARENT_LINEAGE_MISMATCH" ++
  reasonIf (candidate.taskRequest ≠ seed.taskRequest) "TASK_REQUEST_CHANGED" ++
  reasonIf (candidate.taskRequestDigest ≠ seed.taskRequestDigest) "TASK_REQUEST_DIGEST_CHANGED" ++
  reasonIf (candidate.newEnvironmentDigest = seed.environmentDigest) "ENVIRONMENT_UNCHANGED" ++
  reasonIf (candidate.referenceOutcomeDigest = seed.referenceOutcomeDigest)
    "REFERENCE_OUTCOME_UNCHANGED" ++
  reasonIf (candidate.evaluatorDigest = seed.evaluatorDigest) "EVALUATOR_UNCHANGED"

/-- The checks of one decision point. -/
def decisionPointReasons (minEvidenceChainLength : ℕ) (point : EvolutionDecisionPoint) :
    List String :=
  reasonIf (isBlank point.plausibleWrongChoice) s!"WRONG_CHOICE_MISSING:{point.decisionId.1}" ++
  reasonIf point.resolvingEvidenceRefs.isEmpty
    s!"RESOLVING_EVIDENCE_MISSING:{point.decisionId.1}" ++
  reasonIf (isBlank point.rejectingCheckRef) s!"REJECTING_CHECK_MISSING:{point.decisionId.1}" ++
  reasonIf (point.evidenceChainLength < minEvidenceChainLength)
    s!"EVIDENCE_CHAIN_REGRESSION:{point.decisionId.1}"

/-- The checks of the decision points. -/
def decisionReasons {C : Canon} (seed : EvolutionSeed C) (candidate : EvolutionCandidate C) :
    List String :=
  let points := candidate.decisionPoints
  reasonIf (points.length < 3) "INSUFFICIENT_DECISION_POINTS" ++
  reasonIf ((points.map EvolutionDecisionPoint.kind).dedup.length < 3)
    "INSUFFICIENT_DECISION_KIND_DIVERSITY" ++
  reasonIf (¬ (points.map fun p => p.decisionId.1).Nodup) "DUPLICATE_DECISION_POINT_ID" ++
  points.flatMap (decisionPointReasons seed.minEvidenceChainLength)

/-- The loop over the events with what is available so far. -/
def causalReasons (available : List String) : List EvolutionEvent → List String
  | [] => []
  | event :: events =>
    reasonIf (event.dependsOnEventIds.any fun d => d ∉ available)
      s!"CAUSAL_DEPENDENCY_MISSING:{event.eventId.1}" ++
    causalReasons (available ++ [event.eventId.1]) events

/-- The checks of the events. -/
def eventReasons {C : Canon} (seed : EvolutionSeed C) (candidate : EvolutionCandidate C) :
    List String :=
  let expectedSequences := (List.range candidate.events.length).map
    fun i : ℕ => seed.lastEventSequence + 1 + (i : ℤ)
  reasonIf candidate.events.isEmpty "EVOLUTION_EVENT_REQUIRED" ++
  reasonIf (¬ candidate.eventIds.Nodup) "DUPLICATE_EVOLUTION_EVENT_ID" ++
  reasonIf (candidate.events.map (fun e => (e.sequence : ℤ)) ≠ expectedSequences)
    "EVOLUTION_EVENT_SEQUENCE_GAP" ++
  causalReasons seed.historyEventIds candidate.events

/-- The comparisons with the validation. -/
def validationReasons {C : Canon} (seed : EvolutionSeed C) (candidate : EvolutionCandidate C)
    (validation : EvolutionValidation) (seedDigest candidateDigest eventHistoryDigest : String) :
    List String :=
  reasonIf (validation.observerProducerDigest = candidate.generatorDigest)
    "VALIDATOR_NOT_INDEPENDENT_FROM_GENERATOR" ++
  reasonIf (validation.observedSeedDigest.1 ≠ seedDigest) "OBSERVED_SEED_MISMATCH" ++
  reasonIf (validation.observedCandidateDigest.1 ≠ candidateDigest)
    "OBSERVED_CANDIDATE_MISMATCH" ++
  reasonIf (validation.observedParentEnvironmentDigest ≠ seed.environmentDigest)
    "OBSERVED_PARENT_ENVIRONMENT_MISMATCH" ++
  reasonIf (validation.observedTaskRequestDigest ≠ seed.taskRequestDigest)
    "OBSERVED_TASK_REQUEST_MISMATCH" ++
  reasonIf (validation.observedEnvironmentDigest ≠ candidate.newEnvironmentDigest)
    "OBSERVED_ENVIRONMENT_MISMATCH" ++
  reasonIf (validation.observedHistoryDigest.1 ≠ eventHistoryDigest) "OBSERVED_HISTORY_MISMATCH" ++
  reasonIf (validation.evaluatorDigest ≠ candidate.evaluatorDigest)
    "EVALUATOR_IDENTITY_MISMATCH" ++
  validation.recurringFailureDigests.map (fun d => s!"FAILURE_RECURRED:{d}") ++
  reasonIf (!validation.structuralChecksPassed) "STRUCTURAL_VALIDATION_FAILED" ++
  reasonIf (!validation.historyChecksPassed) "HISTORY_VALIDATION_FAILED" ++
  reasonIf (!validation.materialPlacementChecksPassed) "MATERIAL_PLACEMENT_VALIDATION_FAILED" ++
  reasonIf (!validation.evaluationAssetSyntaxPassed) "EVALUATION_ASSET_SYNTAX_FAILED" ++
  reasonIf (!validation.shortcutAuditPassed) "SHORTCUT_AUDIT_FAILED" ++
  reasonIf (!validation.newReferencePassed) "NEW_REFERENCE_FAILED" ++
  reasonIf (!validation.previousReferenceFailed) "PREVIOUS_REFERENCE_SURVIVED" ++
  reasonIf (!validation.decisionPointChecksPassed) "DECISION_POINT_VALIDATION_FAILED"

section Court

variable {C : Canon} (seed : EvolutionSeed C) (candidate : EvolutionCandidate C)
  (validation : EvolutionValidation)

/-- `qualify`. -/
def qualify : Except PyError EvolutionAdmission := do
  let seedDigest ← seed.seedDigest
  let candidateDigest ← candidate.candidateDigest
  let eventHistoryDigest ← candidate.eventHistoryDigest
  let reasons := lineageReasons seed candidate ++ decisionReasons seed candidate ++
    eventReasons seed candidate ++
    validationReasons seed candidate validation seedDigest candidateDigest eventHistoryDigest
  let lineageDigest ← candidate.mutationLineageDigest
  let admitted := reasons.isEmpty
  return {
    seedDigest := ← ContentDigest.construct seedDigest
    candidateDigest := ← ContentDigest.construct candidateDigest
    lineageDigest := ← ContentDigest.construct lineageDigest
    validationEvidenceDigest := validation.evidenceDigest
    admitted
    standing := if admitted then .structural else .refused
    reasons := if admitted then ["EVOLUTION_COURT_CONFORMS"] else reasons }

/-- `require_admitted`. -/
def requireAdmitted : Except PyError EvolutionAdmission := do
  let admission ← qualify seed candidate validation
  if admission.admitted then return admission
  else throw (valueError
    ("ENVIRONMENT_EVOLUTION_REFUSED:" ++ String.intercalate "," admission.reasons))

/-- `min(…)`. -/
def pyMin (ns : List ℕ) : Except PyError ℕ :=
  match ns.min? with
  | none => .error (valueError "min() iterable argument is empty")
  | some n => .ok n

/-- `candidate.events[-1].sequence`. -/
def lastSequence (events : List EvolutionEvent) : Except PyError ℕ :=
  match events.getLast? with
  | none => .error ⟨"IndexError", "tuple index out of range"⟩
  | some event => .ok event.sequence

/-- `advance`. -/
def advance : Except PyError (EvolutionTransition C) := do
  let admission ← requireAdmitted seed candidate validation
  let chainFloor ← pyMin (candidate.decisionPoints.map EvolutionDecisionPoint.evidenceChainLength)
  let historyDigest ← candidate.eventHistoryDigest
  let last ← lastSequence candidate.events
  let candidateDigest ← candidate.candidateDigest
  let lineageDigest ← candidate.mutationLineageDigest
  let nextSeed ← EvolutionSeed.construct C ("seed:" ++ candidate.candidateId.1) candidate.generation
    candidate.newEnvironmentDigest.1 seed.taskRequest seed.taskRequestDigest.1
    candidate.referenceOutcomeDigest.1 candidate.evaluatorDigest.1 historyDigest
    (seed.historyEventIds ++ candidate.eventIds) last
    (max seed.minEvidenceChainLength chainFloor) candidateDigest lineageDigest
  let previousSeedDigest ← seed.seedDigest
  let admissionDigest ← C.blake3Digest admission.modelDump
  let nextSeedDigest ← nextSeed.seedDigest
  let replayReceipt : EvolutionReplayReceipt := {
    previousSeedDigest := ← ContentDigest.construct previousSeedDigest
    candidateDigest := ← ContentDigest.construct candidateDigest
    lineageDigest := ← ContentDigest.construct lineageDigest
    validationEvidenceDigest := validation.evidenceDigest
    admissionDigest := ← ContentDigest.construct admissionDigest
    nextSeedDigest := ← ContentDigest.construct nextSeedDigest }
  return { admission, previousSeedDigest, candidateDigest, nextSeed, replayReceipt }

end Court

/-! ## Digests that are computed -/

theorem contentDigest_of_hexadecimal {d : String} (h : isHexDigest d.toList = true) :
    isContentDigest ("blake3:" ++ d) = true := by
  have htoList : ("blake3:" ++ d).toList = "blake3:".toList ++ d.toList := String.toList_append
  have hlength : "blake3:".toList.length = 7 := rfl
  rw [isContentDigest, htoList, ← hlength, List.take_left, List.drop_left, h]
  simp

section Digests

variable {C : Canon} {v : Value} {d : String}

theorem blake3Digest_eq_ok :
    C.blake3Digest v = .ok d ↔ ∃ b, C.dumps v = .ok b ∧ d = "blake3:" ++ C.blake3 b := by
  cases h : C.dumps v with
  | error e => simp [Canon.blake3Digest, Canon.digest, Canon.canonicalBytes, h, Except.map]
  | ok b =>
    simp only [Canon.blake3Digest, Canon.digest, Canon.canonicalBytes, h, Except.map,
      Except.ok.injEq, exists_eq_left']
    exact ⟨fun h => (Except.ok.inj h).symm, fun h => congrArg Except.ok h.symm⟩

theorem isCanonical_of_blake3Digest (hE : C.Exact) (h : C.blake3Digest v = .ok d) :
    v.isCanonical = true := by
  obtain ⟨b, hb, -⟩ := blake3Digest_eq_ok.mp h
  exact (hE v).mp ⟨b, hb⟩

theorem blake3Digest_ok (hE : C.Exact) (h : v.isCanonical = true) : ∃ d, C.blake3Digest v = .ok d := by
  obtain ⟨b, hb⟩ := (hE v).mpr h
  exact ⟨_, blake3Digest_eq_ok.mpr ⟨b, hb, rfl⟩⟩

theorem isContentDigest_of_blake3Digest (hX : C.Hexadecimal) (h : C.blake3Digest v = .ok d) :
    isContentDigest d = true := by
  obtain ⟨b, -, rfl⟩ := blake3Digest_eq_ok.mp h
  exact contentDigest_of_hexadecimal (hX b)

theorem ContentDigest.construct_ok {s : String} (h : isContentDigest s = true) :
    ContentDigest.construct s = .ok ⟨s, h⟩ := dif_pos h

end Digests

/-! ## What an admitted candidate brings -/

@[simp] theorem reasonIf_eq_nil {condition : Bool} {reason : String} :
    reasonIf condition reason = [] ↔ condition = false := by
  cases condition <;> simp [reasonIf]

/-- An event with what it depends on. -/
def EvolutionEvent.entry (e : EvolutionEvent) : String × List String :=
  (e.eventId.1, e.dependsOnEventIds)

@[simp] theorem ids_entries (events : List EvolutionEvent) :
    CausalLog.ids (events.map EvolutionEvent.entry) = events.map fun e => e.eventId.1 := by
  simp [CausalLog.ids, EvolutionEvent.entry]

/-- The loop over the events finds nothing missing where each dependency is available or
names an earlier event. -/
theorem causalReasons_eq_nil :
    ∀ (events : List EvolutionEvent) (available : List String),
      causalReasons available events = [] ↔
        CausalLog.CausalAfter available (events.map EvolutionEvent.entry)
  | [], _ => by simp [causalReasons, CausalLog.CausalAfter.nil]
  | event :: events, available => by
    rw [causalReasons, List.append_eq_nil_iff, reasonIf_eq_nil, causalReasons_eq_nil events,
      List.map_cons, CausalLog.causalAfter_cons]
    simp [EvolutionEvent.entry]

section Step

variable {C : Canon} {seed : EvolutionSeed C} {candidate : EvolutionCandidate C}
  {validation : EvolutionValidation}

/-- What `qualify` has checked when it admits, as far as the next seed depends on it. -/
structure Conforms (seed : EvolutionSeed C) (candidate : EvolutionCandidate C) : Prop where
  generation : candidate.generation = seed.generation + 1
  points : candidate.decisionPoints ≠ []
  events : candidate.events ≠ []
  distinct : candidate.eventIds.Nodup
  sequences : candidate.events.map (fun e => (e.sequence : ℤ)) =
    (List.range candidate.events.length).map fun i : ℕ => seed.lastEventSequence + 1 + (i : ℤ)
  causal : CausalLog.CausalAfter seed.historyEventIds (candidate.events.map EvolutionEvent.entry)

/-- Every digest is there, and the admission tells whether there were reasons. -/
theorem qualify_eq_ok {admission : EvolutionAdmission}
    (h : qualify seed candidate validation = .ok admission) :
    ∃ sd cd hd ld, seed.seedDigest = .ok sd ∧ candidate.candidateDigest = .ok cd ∧
      candidate.eventHistoryDigest = .ok hd ∧ candidate.mutationLineageDigest = .ok ld ∧
      (admission.admitted = true →
        lineageReasons seed candidate ++ decisionReasons seed candidate ++
          eventReasons seed candidate ++
          validationReasons seed candidate validation sd cd hd = []) := by
  simp only [qualify, Fallible.bind_eq_ok] at h
  obtain ⟨sd, hsd, cd, hcd, hd, hhd, ld, hld, d₁, -, d₂, -, d₃, -, h⟩ := h
  refine ⟨sd, cd, hd, ld, hsd, hcd, hhd, hld, fun hadmitted => ?_⟩
  obtain rfl := Except.ok.inj h
  simpa only [List.isEmpty_iff] using hadmitted

theorem conforms_of_qualify {admission : EvolutionAdmission}
    (h : qualify seed candidate validation = .ok admission) (hadmitted : admission.admitted = true) :
    Conforms seed candidate := by
  obtain ⟨sd, cd, hd, ld, -, -, -, -, hreasons⟩ := qualify_eq_ok h
  have hnil := hreasons hadmitted
  simp only [List.append_eq_nil_iff] at hnil
  obtain ⟨⟨⟨hlineage, hdecision⟩, hevent⟩, -⟩ := hnil
  simp only [lineageReasons, List.append_eq_nil_iff, reasonIf_eq_nil, decide_eq_false_iff_not,
    not_not] at hlineage
  simp only [decisionReasons, List.append_eq_nil_iff, reasonIf_eq_nil, decide_eq_false_iff_not,
    not_not] at hdecision
  simp only [eventReasons, List.append_eq_nil_iff, reasonIf_eq_nil, decide_eq_false_iff_not,
    not_not, causalReasons_eq_nil] at hevent
  obtain ⟨⟨⟨hevents, hdistinct⟩, hsequences⟩, hcausal⟩ := hevent
  refine ⟨hlineage.1.1.1.1.1.1.1.1.1, ?_, ?_, hdistinct, hsequences, hcausal⟩
  · rintro hpoints
    simp [hpoints] at hdecision
  · rintro hnone
    simp [hnone] at hevents

end Step

/-! ## One step -/

section Advance

variable {C : Canon} {seed : EvolutionSeed C} {candidate : EvolutionCandidate C}
  {validation : EvolutionValidation}

/-- `qualify` returns an admission, and it is admitted. -/
def Admits (seed : EvolutionSeed C) (candidate : EvolutionCandidate C)
    (validation : EvolutionValidation) : Prop :=
  ∃ admission, qualify seed candidate validation = .ok admission ∧ admission.admitted = true

theorem requireAdmitted_eq_ok {admission : EvolutionAdmission} :
    requireAdmitted seed candidate validation = .ok admission ↔
      qualify seed candidate validation = .ok admission ∧ admission.admitted = true := by
  rw [requireAdmitted, Fallible.bind_eq_ok]
  constructor
  · rintro ⟨a, ha, h⟩
    split at h
    · obtain rfl := Except.ok.inj h
      exact ⟨ha, ‹_›⟩
    · cases h
  · rintro ⟨hq, hadmitted⟩
    exact ⟨admission, hq, if_pos hadmitted⟩

/-- What the next seed takes from the seed and the candidate. -/
structure Continues (seed : EvolutionSeed C) (candidate : EvolutionCandidate C)
    (next : EvolutionSeed C) : Prop where
  generation : next.generation = seed.generation + 1
  history : next.historyEventIds = seed.historyEventIds ++ candidate.eventIds
  last : next.lastEventSequence = seed.lastEventSequence + candidate.events.length
  chain : seed.minEvidenceChainLength ≤ next.minEvidenceChainLength

theorem EvolutionSeed.construct_eq_ok {seedId environmentDigest taskRequest taskRequestDigest
    referenceOutcomeDigest evaluatorDigest historyDigest sourceDigest lineageDigest : String}
    {generation minLength : ℕ} {ids : List String} {last : ℤ} {next : EvolutionSeed C}
    (h : EvolutionSeed.construct C seedId generation environmentDigest taskRequest taskRequestDigest
      referenceOutcomeDigest evaluatorDigest historyDigest ids last minLength sourceDigest
      lineageDigest = .ok next) :
    next.generation = generation ∧ next.historyEventIds = ids ∧ next.lastEventSequence = last ∧
      next.minEvidenceChainLength = minLength := by
  simp only [EvolutionSeed.construct, Fallible.bind_eq_ok] at h
  obtain ⟨d₁, -, d₂, -, d₃, -, d₄, -, d₅, -, d₆, -, d₇, -, d₈, -, h⟩ := h
  split at h
  · split at h
    · split at h
      · split at h
        · obtain rfl := Except.ok.inj h
          exact ⟨rfl, rfl, rfl, rfl⟩
        · cases h
      · cases h
    · cases h
  · cases h

/-- The last event of an admitted candidate closes the numbers. -/
theorem Conforms.lastSequence (h : Conforms seed candidate) :
    ∃ n, lastSequence candidate.events = .ok n ∧
      (n : ℤ) = seed.lastEventSequence + candidate.events.length ∧
      ∃ e ∈ candidate.events, e.sequence = n := by
  obtain ⟨init, e, heq⟩ := List.eq_nil_or_concat candidate.events |>.resolve_left h.events
  refine ⟨e.sequence, by simp [GymAct.lastSequence, heq], ?_, e, by simp [heq], rfl⟩
  have hlast := congrArg List.getLast? h.sequences
  rw [heq, List.concat_eq_append] at hlast ⊢
  simp only [List.map_append, List.map_cons, List.map_nil, List.getLast?_append,
    List.getLast?_singleton, Option.some_or, List.length_append, List.length_singleton,
    List.range_succ, Option.some.injEq] at hlast
  rw [hlast, List.length_append, List.length_singleton]
  omega

theorem continues_of_advance {t : EvolutionTransition C}
    (h : advance seed candidate validation = .ok t) :
    Admits seed candidate validation ∧ Continues seed candidate t.nextSeed := by
  simp only [advance, Fallible.bind_eq_ok] at h
  obtain ⟨admission, hrequire, chainFloor, -, historyDigest, -, last, hlast, candidateDigest, -,
    lineageDigest, -, nextSeed, hnext, previousSeedDigest, -, admissionDigest, -, nextSeedDigest, -,
    d₁, -, d₂, -, d₃, -, d₄, -, d₅, -, h⟩ := h
  obtain rfl := Except.ok.inj h
  obtain ⟨hqualify, hadmitted⟩ := requireAdmitted_eq_ok.mp hrequire
  have hconforms := conforms_of_qualify hqualify hadmitted
  obtain ⟨n, hn, hnlast, -⟩ := hconforms.lastSequence
  obtain rfl : n = last := Except.ok.inj (hn.symm.trans hlast)
  obtain ⟨hgeneration, hids, hnumber, hchain⟩ := EvolutionSeed.construct_eq_ok hnext
  exact ⟨⟨admission, hqualify, hadmitted⟩, hgeneration.trans hconforms.generation, hids,
    hnumber.trans hnlast, hchain ▸ le_max_left _ _⟩

/-! An admitted candidate raises nothing on the way to the next seed : what the next seed and
the receipt hold is in documents `qualify` has digested. -/

theorem isCanonical_int {n : ℤ} :
    (Value.int n).isCanonical = true ↔ -(2 ^ 53 - 1) ≤ n ∧ n ≤ 2 ^ 53 - 1 := by
  simp [Value.isCanonical]

theorem isCanonical_ofDigest (d : Option ContentDigest) : (ofDigest d).isCanonical = true :=
  Value.isCanonical_ofOption _

/-- The numbers of a candidate that has a digest. -/
theorem EvolutionCandidate.canonical (h : candidate.modelDump.isCanonical = true) :
    (Value.int candidate.generation).isCanonical = true ∧
      (∀ p ∈ candidate.decisionPoints, (Value.int p.evidenceChainLength).isCanonical = true) ∧
      ∀ e ∈ candidate.events, (Value.int e.sequence).isCanonical = true := by
  simp only [EvolutionCandidate.modelDump, Value.isCanonical_dict, Value.isCanonicalItems_cons,
    Bool.and_eq_true, Value.isCanonical_list_iff, List.forall_mem_map] at h
  obtain ⟨-, hgeneration, -, -, -, -, -, -, -, -, -, -, -, -, -, -, -, hpoints, hevents, -⟩ := h
  refine ⟨hgeneration, fun p hp => ?_, fun e he => ?_⟩
  · have := hpoints p hp
    simp only [EvolutionDecisionPoint.modelDump, Value.isCanonical_dict,
      Value.isCanonicalItems_cons, Bool.and_eq_true] at this
    exact this.2.2.2.2.2.1
  · have := hevents e he
    simp only [EvolutionEvent.modelDump, Value.isCanonical_dict, Value.isCanonicalItems_cons,
      Bool.and_eq_true] at this
    exact this.2.1

/-- The numbers of a seed are all that can keep it from a digest. -/
theorem EvolutionSeed.isCanonical_modelDump : seed.modelDump.isCanonical = true ↔
    (Value.int seed.generation).isCanonical = true ∧
      (Value.int seed.lastEventSequence).isCanonical = true ∧
      (Value.int seed.minEvidenceChainLength).isCanonical = true := by
  simp [EvolutionSeed.modelDump, isCanonical_ofDigest]

theorem EvolutionSeed.construct_ok {seedId taskRequest historyDigest sourceDigest lineageDigest : String}
    {environmentDigest taskRequestDigest referenceOutcomeDigest evaluatorDigest : ContentDigest}
    {generation minLength : ℕ} {ids : List String} {last : ℤ} (hid : seedId ≠ "")
    (hhistory : isContentDigest historyDigest = true) (hsource : isContentDigest sourceDigest = true)
    (hlineage : isContentDigest lineageDigest = true) (hlast : -1 ≤ last) (hmin : 1 ≤ minLength)
    (htask : taskRequestDigest.1 = C.taskRequestDigest taskRequest)
    (hplaced : ids ≠ [] → (ids.length : ℤ) - 1 ≤ last) :
    ∃ next, EvolutionSeed.construct C seedId generation environmentDigest.1 taskRequest
      taskRequestDigest.1 referenceOutcomeDigest.1 evaluatorDigest.1 historyDigest ids last minLength
      sourceDigest lineageDigest = .ok next := by
  simp only [EvolutionSeed.construct, NonEmptyText.construct, dif_pos hid,
    ContentDigest.construct_ok environmentDigest.2, ContentDigest.construct_ok taskRequestDigest.2,
    ContentDigest.construct_ok referenceOutcomeDigest.2, ContentDigest.construct_ok evaluatorDigest.2,
    ContentDigest.construct_ok hhistory, ContentDigest.construct_ok hsource,
    ContentDigest.construct_ok hlineage, dif_pos hlast, dif_pos hmin, dif_pos hplaced]
  exact ⟨_, dif_pos htask⟩

/-- The history of the next seed is as far along as its events. -/
theorem history_placed_next {n : ℕ}
    (hn : (n : ℤ) = seed.lastEventSequence + candidate.events.length) :
    ((seed.historyEventIds ++ candidate.eventIds).length : ℤ) - 1 ≤ n := by
  have hlength : candidate.eventIds.length = candidate.events.length := List.length_map _
  rw [List.length_append, hlength]
  rcases eq_or_ne seed.historyEventIds [] with hnone | hsome
  · have := seed.sequence_ge
    rw [hnone, List.length_nil]
    omega
  · have := seed.history_placed hsome
    omega

theorem pyMin_ok {ns : List ℕ} (h : ns ≠ []) : ∃ n ∈ ns, pyMin ns = .ok n := by
  cases hmin : ns.min? with
  | none => exact absurd (List.min?_eq_none_iff.mp hmin) h
  | some n => exact ⟨n, List.min?_mem hmin, by simp [pyMin, hmin]⟩

theorem advance_of_admits (hE : C.Exact) (hX : C.Hexadecimal)
    (h : Admits seed candidate validation) : ∃ t, advance seed candidate validation = .ok t := by
  obtain ⟨admission, hqualify, hadmitted⟩ := h
  have hconforms := conforms_of_qualify hqualify hadmitted
  obtain ⟨sd, cd, hd, ld, hsd, hcd, hhd, hld, -⟩ := qualify_eq_ok hqualify
  obtain ⟨n, hn, hnlast, e, he, rfl⟩ := hconforms.lastSequence
  obtain ⟨floor, hmem, hfloor⟩ := pyMin_ok (by simpa using hconforms.points :
    candidate.decisionPoints.map EvolutionDecisionPoint.evidenceChainLength ≠ [])
  -- the next seed passes its validators
  have hnext : ∃ next, EvolutionSeed.construct C ("seed:" ++ candidate.candidateId.1)
      candidate.generation candidate.newEnvironmentDigest.1 seed.taskRequest
      seed.taskRequestDigest.1 candidate.referenceOutcomeDigest.1 candidate.evaluatorDigest.1 hd
      (seed.historyEventIds ++ candidate.eventIds) e.sequence
      (max seed.minEvidenceChainLength floor) cd ld = .ok next :=
    EvolutionSeed.construct_ok (by simp) (isContentDigest_of_blake3Digest hX hhd)
      (isContentDigest_of_blake3Digest hX hcd) (isContentDigest_of_blake3Digest hX hld) (by omega)
      (le_max_of_le_left seed.chain_ge) seed.task_bound fun _ => history_placed_next hnlast
  obtain ⟨next, hnext⟩ := hnext
  -- and has a digest, as its numbers are numbers of the seed and the candidate
  obtain ⟨hgeneration, -, hlast, hchain⟩ := EvolutionSeed.construct_eq_ok hnext
  obtain ⟨hcgeneration, hcpoints, hcevents⟩ :=
    EvolutionCandidate.canonical (isCanonical_of_blake3Digest hE hcd)
  obtain ⟨-, -, hschain⟩ :=
    EvolutionSeed.isCanonical_modelDump.mp (isCanonical_of_blake3Digest hE hsd)
  have hcanonical : next.modelDump.isCanonical = true := by
    refine EvolutionSeed.isCanonical_modelDump.mpr
      ⟨hgeneration ▸ hcgeneration, hlast ▸ hcevents e he, ?_⟩
    obtain ⟨point, hpoint, rfl⟩ := List.mem_map.mp hmem
    rw [hchain]
    rcases max_choice seed.minEvidenceChainLength point.evidenceChainLength with hmax | hmax
    · rw [hmax]
      exact hschain
    · rw [hmax]
      exact hcpoints point hpoint
  obtain ⟨nd, hnd⟩ := blake3Digest_ok hE hcanonical
  have hadmission : admission.modelDump.isCanonical = true := by simp [EvolutionAdmission.modelDump]
  obtain ⟨ad, had⟩ := blake3Digest_ok hE hadmission
  have hnd : next.seedDigest = .ok nd := hnd
  simp only [advance, requireAdmitted_eq_ok.mpr ⟨hqualify, hadmitted⟩, hfloor, hhd, hn, hcd, hld,
    hnext, hsd, had, hnd, Fallible.ok_bind,
    ContentDigest.construct_ok (isContentDigest_of_blake3Digest hX hsd),
    ContentDigest.construct_ok (isContentDigest_of_blake3Digest hX hcd),
    ContentDigest.construct_ok (isContentDigest_of_blake3Digest hX hld),
    ContentDigest.construct_ok (isContentDigest_of_blake3Digest hX had),
    ContentDigest.construct_ok (isContentDigest_of_blake3Digest hX hnd)]
  exact ⟨_, rfl⟩

/-- `advance` raises where `qualify` does not admit. -/
theorem advance_raises_iff (hE : C.Exact) (hX : C.Hexadecimal) :
    (∃ e, advance seed candidate validation = .error e) ↔ ¬ Admits seed candidate validation := by
  constructor
  · rintro ⟨e, he⟩ hadmits
    obtain ⟨t, ht⟩ := advance_of_admits hE hX hadmits
    cases he.symm.trans ht
  · intro hrefused
    cases h : advance seed candidate validation with
    | error e => exact ⟨e, rfl⟩
    | ok t => exact absurd (continues_of_advance h).1 hrefused

end Advance

/-! ## Chains of advances -/

section Chain

variable {C : Canon}

/-- `past` is what `advance` was called with, in order, on the way from `first` to `seed`. -/
inductive Evolves (first : EvolutionSeed C) : List (EvolutionCandidate C) → EvolutionSeed C → Prop
  | start : Evolves first [] first
  | advance {past : List (EvolutionCandidate C)} {seed : EvolutionSeed C}
      {candidate : EvolutionCandidate C} {validation : EvolutionValidation}
      {t : EvolutionTransition C} :
      Evolves first past seed → advance seed candidate validation = .ok t →
        Evolves first (past ++ [candidate]) t.nextSeed

/-- The events of a chain, in order. -/
def eventsOf (past : List (EvolutionCandidate C)) : List EvolutionEvent :=
  past.flatMap EvolutionCandidate.events

@[simp] theorem eventsOf_snoc (past : List (EvolutionCandidate C)) (candidate : EvolutionCandidate C) :
    eventsOf (past ++ [candidate]) = eventsOf past ++ candidate.events := by
  simp [eventsOf]

/-- The ids of the events of a chain, in order. -/
def eventIdsOf (past : List (EvolutionCandidate C)) : List String :=
  (eventsOf past).map fun e => e.eventId.1

/-- Each candidate brings ids that the history before it does not have. -/
def Fresh (first : EvolutionSeed C) (past : List (EvolutionCandidate C)) : Prop :=
  ∀ pre candidate post, past = pre ++ candidate :: post →
    ∀ id ∈ candidate.eventIds, id ∉ first.historyEventIds ++ eventIdsOf pre

/-- A history with everything the chain should keep. -/
structure Coherent (first : EvolutionSeed C) (past : List (EvolutionCandidate C))
    (seed : EvolutionSeed C) : Prop where
  generation : seed.generation = first.generation + past.length
  history : seed.historyEventIds = first.historyEventIds ++ eventIdsOf past
  distinct : seed.historyEventIds.Nodup
  causal : CausalLog.CausalAfter first.historyEventIds ((eventsOf past).map EvolutionEvent.entry)
  contiguous : (eventsOf past).map (fun e => (e.sequence : ℤ)) =
    (List.range (eventsOf past).length).map fun i : ℕ => first.lastEventSequence + 1 + (i : ℤ)
  last : seed.lastEventSequence = first.lastEventSequence + (eventsOf past).length
  chain : first.minEvidenceChainLength ≤ seed.minEvidenceChainLength
  raises : ∀ candidate validation,
    (∃ e, advance seed candidate validation = .error e) ↔ ¬ Admits seed candidate validation
  grows : ∀ candidate validation t, advance seed candidate validation = .ok t →
    t.nextSeed.generation = seed.generation + 1 ∧
      seed.minEvidenceChainLength ≤ t.nextSeed.minEvidenceChainLength

variable {first seed : EvolutionSeed C} {past : List (EvolutionCandidate C)}

@[simp] theorem eventIdsOf_snoc (past : List (EvolutionCandidate C))
    (candidate : EvolutionCandidate C) :
    eventIdsOf (past ++ [candidate]) = eventIdsOf past ++ candidate.eventIds := by
  simp [eventIdsOf, EvolutionCandidate.eventIds]

theorem fresh_nil : Fresh first [] := fun pre candidate post h => by simp at h

theorem fresh_snoc {candidate : EvolutionCandidate C} :
    Fresh first (past ++ [candidate]) ↔
      Fresh first past ∧ ∀ id ∈ candidate.eventIds, id ∉ first.historyEventIds ++ eventIdsOf past := by
  constructor
  · refine fun h => ⟨fun pre c post heq => ?_, h past candidate [] rfl⟩
    exact h pre c (post ++ [candidate]) (by rw [heq, List.append_assoc, List.cons_append])
  · rintro ⟨hpast, hlast⟩ pre c post heq
    rcases List.eq_nil_or_concat post with rfl | ⟨post, x, rfl⟩
    · obtain ⟨rfl, hc⟩ := List.append_inj' heq rfl
      obtain rfl := List.singleton_inj.mp hc
      exact hlast
    · exact hpast pre c post (List.append_inj' (heq.trans (by simp)) (rfl : [_].length = [x].length)).1

/-- Numbers that go on where the numbers before them end. -/
theorem contiguous_append {a : ℤ} {m n : ℕ} :
    ((List.range m).map fun i : ℕ => a + 1 + (i : ℤ)) ++
        ((List.range n).map fun i : ℕ => a + m + 1 + (i : ℤ)) =
      (List.range (m + n)).map fun i : ℕ => a + 1 + (i : ℤ) := by
  rw [List.range_add, List.map_append, List.map_map]
  congr 1
  refine List.map_congr_left fun i _ => ?_
  simp only [Function.comp_apply]
  omega

/-- What every chain keeps. -/
theorem Evolves.accounts (h : Evolves first past seed) :
    seed.generation = first.generation + past.length ∧
      seed.historyEventIds = first.historyEventIds ++ eventIdsOf past ∧
      CausalLog.CausalAfter first.historyEventIds ((eventsOf past).map EvolutionEvent.entry) ∧
      (eventsOf past).map (fun e => (e.sequence : ℤ)) =
        ((List.range (eventsOf past).length).map fun i : ℕ => first.lastEventSequence + 1 + (i : ℤ)) ∧
      seed.lastEventSequence = first.lastEventSequence + (eventsOf past).length ∧
      first.minEvidenceChainLength ≤ seed.minEvidenceChainLength := by
  induction h with
  | start => exact ⟨rfl, by simp [eventIdsOf, eventsOf], CausalLog.CausalAfter.nil, rfl, by simp [eventsOf], le_rfl⟩
  | @advance past seed candidate validation t hseed ht ih =>
    obtain ⟨hgeneration, hids, hcausal, hnumbers, hlast, hchain⟩ := ih
    obtain ⟨⟨admission, hqualify, hadmitted⟩, hnext⟩ := continues_of_advance ht
    have hconforms := conforms_of_qualify hqualify hadmitted
    refine ⟨?_, ?_, ?_, ?_, ?_, hchain.trans hnext.chain⟩
    · rw [hnext.generation, hgeneration, List.length_append, List.length_singleton, Nat.add_assoc]
    · rw [hnext.history, hids, eventIdsOf_snoc, List.append_assoc]
    · rw [eventsOf_snoc, List.map_append]
      refine hcausal.append ?_
      rw [ids_entries]
      exact hids ▸ hconforms.causal
    · rw [eventsOf_snoc, List.map_append, hnumbers, hconforms.sequences, hlast, contiguous_append,
        List.length_append]
    · rw [hnext.last, hlast, eventsOf_snoc, List.length_append]
      omega

/-- The ids of a history are distinct where every candidate brought new ones. -/
theorem Evolves.nodup_iff_fresh (hfirst : first.historyEventIds.Nodup) (h : Evolves first past seed) :
    seed.historyEventIds.Nodup ↔ Fresh first past := by
  induction h with
  | start => exact ⟨fun _ => fresh_nil, fun _ => hfirst⟩
  | @advance past seed candidate validation t hseed ht ih =>
    obtain ⟨⟨admission, hqualify, hadmitted⟩, hnext⟩ := continues_of_advance ht
    have hdistinct := (conforms_of_qualify hqualify hadmitted).distinct
    obtain ⟨-, hids, -⟩ := hseed.accounts
    rw [hnext.history, fresh_snoc, ← ih, ← hids, List.nodup_append']
    constructor
    · rintro ⟨hseed, -, hdisjoint⟩
      exact ⟨hseed, fun id hid hold => hdisjoint hold hid⟩
    · rintro ⟨hseed, hnew⟩
      exact ⟨hseed, hdistinct, fun id hold hid => hnew id hid hold⟩

/-- A chain of advances keeps its history coherent exactly when every candidate it accepted
brought event ids that the seed before it did not have. -/
theorem coherent_iff_fresh (hE : C.Exact) (hX : C.Hexadecimal)
    (hfirst : first.historyEventIds.Nodup) (h : Evolves first past seed) :
    Coherent first past seed ↔ Fresh first past := by
  refine ⟨fun hcoherent => (h.nodup_iff_fresh hfirst).mp hcoherent.distinct, fun hfresh => ?_⟩
  obtain ⟨hgeneration, hids, hcausal, hnumbers, hlast, hchain⟩ := h.accounts
  refine ⟨hgeneration, hids, (h.nodup_iff_fresh hfirst).mpr hfresh, hcausal, hnumbers, hlast, hchain,
    fun _ _ => advance_raises_iff hE hX, fun candidate validation t ht => ?_⟩
  obtain ⟨-, hnext⟩ := continues_of_advance ht
  exact ⟨hnext.generation, hnext.chain⟩

end Chain

/-! ## A history that repeats an id -/

def hexDigit (n : ℕ) : Char := if n < 10 then Char.ofNat (48 + n) else Char.ofNat (87 + n)

theorem isHexDigit_hexDigit : ∀ n < 16, isHexDigit (hexDigit n) = true := by decide

/-- The last 64 hexadecimal digits of the bytes read as one number. -/
def hexDigits (b : Bytes) : String :=
  let n := b.foldl (fun n x => 256 * n + x.toNat) 0
  String.ofList ((List.range 64).map fun i => hexDigit (n / 16 ^ i % 16))

/-- Canonical text, and hexadecimal digits as digest. -/
def hexCanon : Canon := ⟨Canon.reference.dumps, hexDigits⟩

theorem hexCanon_exact : hexCanon.Exact := Canon.reference_exact

theorem hexCanon_hexadecimal : hexCanon.Hexadecimal := by
  intro b
  simp only [hexCanon, hexDigits, isHexDigest, String.toList_ofList, List.length_map,
    List.length_range, decide_true, Bool.true_and, List.all_map, List.all_eq_true]
  intro i _
  have hlt : b.foldl (fun n x => 256 * n + x.toNat) 0 / 16 ^ i % 16 < 16 := Nat.mod_lt _ (by decide)
  exact isHexDigit_hexDigit _ hlt

/-- A digest of one digit. -/
def digestOf (n : Fin 16) : ContentDigest :=
  ⟨"blake3:" ++ String.ofList (List.replicate 64 (hexDigit n)), contentDigest_of_hexadecimal (by
    rw [isHexDigest, String.toList_ofList, List.length_replicate]
    simpa using isHexDigit_hexDigit n n.isLt)⟩

/-- `task_request_digest` of no text. -/
def emptyTaskDigest : ContentDigest :=
  ⟨hexCanon.taskRequestDigest "", contentDigest_of_hexadecimal (hexCanon_hexadecimal _)⟩

/-- A seed with one event in its history. -/
def evolutionSeed : EvolutionSeed hexCanon where
  seedId := ⟨"seed", by decide⟩
  generation := 0
  environmentDigest := digestOf 0
  taskRequest := ""
  taskRequestDigest := emptyTaskDigest
  referenceOutcomeDigest := digestOf 1
  evaluatorDigest := digestOf 2
  historyDigest := digestOf 3
  historyEventIds := ["event-0"]
  lastEventSequence := 0
  sequence_ge := by decide
  chain_ge := by decide
  task_bound := rfl
  history_placed := by decide

def decisionPoint (id : NonEmptyText) (kind : EvolutionDecisionKind) : EvolutionDecisionPoint :=
  ⟨id, kind, "keep", ["log"], "check", 1⟩

/-- A candidate with one event. -/
def evolutionCandidate (eventId : NonEmptyText) : EvolutionCandidate hexCanon where
  candidateId := ⟨"c", by decide⟩
  generation := 1
  parentEnvironmentDigest := digestOf 0
  parentHistoryDigest := digestOf 3
  taskRequest := ""
  taskRequestDigest := emptyTaskDigest
  direction := ⟨"harder", by decide⟩
  generatorRef := ⟨"generator", by decide⟩
  generatorDigest := digestOf 4
  mutationOperatorDigest := digestOf 5
  mutationSeed := 0
  ecosystem :=
    { marketplaceCommitSha := ⟨String.ofList (List.replicate 40 '0'), by decide⟩
      autofdeSelectionDigest := digestOf 6
      sjiraWorkOrderId := ⟨"order", by decide⟩
      sjiraBaseSha := ⟨String.ofList (List.replicate 40 '1'), by decide⟩
      sa2aCandidateDigest := digestOf 7 }
  newEnvironmentDigest := digestOf 8
  referenceOutcomeDigest := digestOf 9
  evaluatorDigest := digestOf 10
  decisionPoints := [decisionPoint ⟨"a", by decide⟩ .temporal,
    decisionPoint ⟨"b", by decide⟩ .exclusion, decisionPoint ⟨"c", by decide⟩ .numerical]
  events := [⟨eventId, 1, .modify, ⟨"file", by decide⟩, digestOf 11, ["event-0"]⟩]
  generation_ge := le_rfl
  task_bound := rfl
  feedback_digests := by simp
  feedback_distinct := List.nodup_nil

/-- A validation that observed what it should. -/
def evolutionValidation (seedDigest candidateDigest historyDigest : ContentDigest) :
    EvolutionValidation where
  observerRef := ⟨"observer", by decide⟩
  observerProducerDigest := digestOf 12
  evidenceDigest := digestOf 13
  observedSeedDigest := seedDigest
  observedCandidateDigest := candidateDigest
  observedParentEnvironmentDigest := digestOf 0
  observedTaskRequestDigest := emptyTaskDigest
  observedEnvironmentDigest := digestOf 8
  observedHistoryDigest := historyDigest
  evaluatorDigest := digestOf 10
  structuralChecksPassed := true
  historyChecksPassed := true
  materialPlacementChecksPassed := true
  evaluationAssetSyntaxPassed := true
  shortcutAuditPassed := true
  newReferencePassed := true
  previousReferenceFailed := true
  decisionPointChecksPassed := true

theorem hexDigit_inj : ∀ m < 16, ∀ n < 16, hexDigit m = hexDigit n → m = n := by decide

theorem digestOf_inj {m n : Fin 16} : digestOf m = digestOf n ↔ m = n := by
  refine ⟨fun h => Fin.ext (hexDigit_inj m m.isLt n n.isLt ?_), congrArg digestOf⟩
  have htext := congrArg (fun d : ContentDigest => d.1.toList) h
  simp only [digestOf, String.toList_append, String.toList_ofList, List.append_cancel_left_eq,
    List.replicate_inj] at htext
  exact htext.2.resolve_left (by decide)

theorem evolutionCandidate_admitted (eventId : NonEmptyText) :
    ∃ validation, Admits evolutionSeed (evolutionCandidate eventId) validation := by
  have hseed : evolutionSeed.modelDump.isCanonical = true := by
    simp [EvolutionSeed.isCanonical_modelDump, evolutionSeed, isCanonical_int]
  have hcandidate : (evolutionCandidate eventId).modelDump.isCanonical = true := by
    simp [EvolutionCandidate.modelDump, evolutionCandidate, isCanonical_ofDigest, isCanonical_int,
      Value.isCanonical_list_iff, EvolutionDecisionPoint.modelDump, EvolutionEvent.modelDump,
      EvolutionEcosystemBinding.modelDump, decisionPoint]
  obtain ⟨sd, hsd⟩ := blake3Digest_ok hexCanon_exact hseed
  obtain ⟨cd, hcd⟩ := blake3Digest_ok hexCanon_exact hcandidate
  obtain ⟨hd, hhd⟩ : ∃ d, (evolutionCandidate eventId).eventHistoryDigest = .ok d :=
    blake3Digest_ok hexCanon_exact (by
      simp [evolutionCandidate, isCanonical_int, Value.isCanonical_list_iff,
        EvolutionEvent.modelDump])
  obtain ⟨ld, hld⟩ : ∃ d, (evolutionCandidate eventId).mutationLineageDigest = .ok d :=
    blake3Digest_ok hexCanon_exact (by
      simp [evolutionCandidate, isCanonical_int, isCanonical_ofDigest])
  have hsd' : evolutionSeed.seedDigest = .ok sd := hsd
  have hcd' : (evolutionCandidate eventId).candidateDigest = .ok cd := hcd
  have hcontent {v : Value} {d : String} (h : hexCanon.blake3Digest v = .ok d) :
      isContentDigest d = true := isContentDigest_of_blake3Digest hexCanon_hexadecimal h
  refine ⟨evolutionValidation ⟨sd, hcontent hsd⟩ ⟨cd, hcontent hcd⟩ ⟨hd, hcontent hhd⟩, ?_⟩
  simp only [Admits, qualify, hsd', hcd', hhd, hld, Fallible.ok_bind,
    ContentDigest.construct_ok (hcontent hsd), ContentDigest.construct_ok (hcontent hcd),
    ContentDigest.construct_ok (hcontent hld), pure, Except.pure,
    Except.ok.injEq, exists_eq_left', List.isEmpty_iff]
  have hlineage : lineageReasons evolutionSeed (evolutionCandidate eventId) = [] := by
    simp [lineageReasons, evolutionSeed, evolutionCandidate, digestOf_inj]
  have hkeep : isBlank "keep" = false := by decide
  have hcheck : isBlank "check" = false := by decide
  have hdecision : decisionReasons evolutionSeed (evolutionCandidate eventId) = [] := by
    simp [decisionReasons, decisionPointReasons, evolutionCandidate, evolutionSeed, decisionPoint,
      hkeep, hcheck]
  have hevent : eventReasons evolutionSeed (evolutionCandidate eventId) = [] := by
    simp [eventReasons, evolutionSeed, evolutionCandidate, EvolutionCandidate.eventIds,
      causalReasons]
  rw [hlineage, hdecision, hevent]
  simp [validationReasons, evolutionValidation, evolutionSeed, evolutionCandidate, digestOf_inj]

/-- One step from the seed, with an event of the given id. -/
theorem evolutionCandidate_evolves (eventId : NonEmptyText) :
    ∃ seed, Evolves evolutionSeed [evolutionCandidate eventId] seed ∧
      seed.historyEventIds = ["event-0", eventId.1] := by
  obtain ⟨validation, hadmits⟩ := evolutionCandidate_admitted eventId
  obtain ⟨t, ht⟩ := advance_of_admits hexCanon_exact hexCanon_hexadecimal hadmits
  refine ⟨t.nextSeed, .advance .start ht, (continues_of_advance ht).2.history.trans ?_⟩
  simp [evolutionSeed, evolutionCandidate, EvolutionCandidate.eventIds]

/-- `qualify` admits a candidate that reuses an id of the history. -/
theorem history_repeats :
    evolutionSeed.historyEventIds.Nodup ∧
      ∃ past seed, Evolves evolutionSeed past seed ∧ ¬ seed.historyEventIds.Nodup := by
  obtain ⟨seed, hevolves, hids⟩ := evolutionCandidate_evolves ⟨"event-0", by decide⟩
  exact ⟨by decide, _, seed, hevolves, by rw [hids]; decide⟩

theorem coherent_iff_fresh_sample :
    ∃ seed, Evolves evolutionSeed [evolutionCandidate ⟨"event-1", by decide⟩] seed ∧
      Coherent evolutionSeed [evolutionCandidate ⟨"event-1", by decide⟩] seed := by
  obtain ⟨seed, hevolves, hids⟩ := evolutionCandidate_evolves ⟨"event-1", by decide⟩
  refine ⟨seed, hevolves,
    (coherent_iff_fresh hexCanon_exact hexCanon_hexadecimal (by decide) hevolves).mpr ?_⟩
  refine (hevolves.nodup_iff_fresh (by decide)).mp ?_
  rw [hids]
  decide

end GymAct
