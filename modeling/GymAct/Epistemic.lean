import GymAct.Fallible
import GymAct.Models

/-!
# The epistemic process kernel

`run_episode` asks the cognitive operators for hypotheses, for evidence links and for
experiments, computes the state of every hypothesis itself, and admits a diagnosis. What the
operators and the environment answer is open : `Operators` over any state of the outside.

The rounds stop when one hypothesis is SUPPORTED and none UNKNOWN (`nextKernelAction`), but
also when no experiment is proposed or the rounds are used up, and admission then counts the
SUPPORTED hypotheses only. `episode_decided_iff` : an admitted episode is decided exactly
where the rounds are not left open in this way and the rest of the episode goes through.
-/

namespace GymAct

namespace Epistemic

open Fallible (Returns)

/-! ## Records -/

/-- `EpistemicState`. -/
inductive HypothesisState
  | unknown | supported | refuted
  deriving DecidableEq, Repr

inductive EvidenceRelation
  | supports | contradicts | nonDiagnostic
  deriving DecidableEq, Repr

structure Fact where
  id : String
  subject : String
  predicate : String
  value : String
  sourceObservationIds : List String := []
  derivationIds : List String := []
  deriving DecidableEq, Repr

structure Constraint where
  id : String
  expression : String
  sourceIds : List String := []
  hard : Bool := true
  deriving DecidableEq, Repr

structure Goal where
  id : String
  desiredPredicates : List String
  prohibitedPredicates : List String := []
  successCriteria : List String := []
  deriving DecidableEq, Repr

/-- `epistemic_dspy.Capability`. -/
structure EpistemicCapability where
  id : String
  consequence : Consequence
  description : String
  deriving DecidableEq, Repr

structure CandidateClaim where
  subject : String
  predicate : String
  value : String
  sourceObservationIds : List String
  deriving DecidableEq, Repr

structure HypothesisProposal where
  proposition : String
  predictedPredicates : List String := []
  falsifier : String
  deriving DecidableEq, Repr

structure AdmittedHypothesis where
  id : String
  proposition : String
  state : HypothesisState
  predictedPredicates : List String := []
  falsifier : String := ""
  supportingFactIds : List String := []
  contradictingFactIds : List String := []
  deriving DecidableEq, Repr

structure EvidenceLinkProposal where
  hypothesisId : String
  factId : String
  relation : EvidenceRelation
  deriving DecidableEq, Repr

structure EpistemicObligation where
  hypothesisId : String
  requiredPredicate : String
  whyRequired : String
  deriving DecidableEq, Repr

structure EvidenceMapping where
  links : List EvidenceLinkProposal := []
  obligations : List EpistemicObligation := []
  deriving DecidableEq, Repr

structure ReadCandidate where
  capabilityId : String
  parameters : Payload := []
  discriminatesHypothesisIds : List String := []
  deriving DecidableEq, Repr

structure DiagnosisCandidate where
  supportedHypothesisIds : List String
  unresolvedCompetitorIds : List String := []
  causalChain : List String
  explanation : String
  deriving DecidableEq, Repr

structure PlanStep where
  capabilityId : String
  parameters : Payload := []
  deriving DecidableEq, Repr

structure CandidatePlan where
  name : String
  steps : List PlanStep
  deriving DecidableEq, Repr

/-- What `_execute_capability` reads of the result of `gym.act`. -/
structure ActOutcome where
  accepted : Bool
  standing : Standing
  reason : Option String
  effect : Option Payload
  deriving DecidableEq, Repr

/-- The result of `_execute_capability`. -/
structure Outcome where
  accepted : Bool
  standing : String
  reason : Option String
  effect : Payload
  deriving DecidableEq, Repr

/-- A `KernelStep`, by its kind. -/
inductive KernelStep
  | hypothesize (propositions : List String)
  | evidenceLink (round grounded : ℕ) (refused : List String)
  | uncommittedAfterInvestigation (round : ℕ) (hypothesisIds : List String)
  | rehypothesize (round : ℕ) (propositions : List String)
  | discriminateRefused (capabilityId reason : String)
  | discriminateExecute (capabilityId : String) (parameters : Payload) (observationId : String)
      (outcome : Outcome)
  | claimRefused (subject predicate reason : String)
  | factAdmitted (fact : Fact)
  | diagnose (diagnosis : DiagnosisCandidate)
  | construct (plan : CandidatePlan)
  | brceAct (capabilityId : String) (parameters : Payload) (outcome : Outcome)
  deriving DecidableEq, Repr

structure EpistemicKernelResult where
  admitted : Bool
  admissionReason : String
  diagnosis : Option DiagnosisCandidate
  selectedPlan : Option CandidatePlan
  facts : List Fact
  hypotheses : List AdmittedHypothesis
  diagnosisSubmitted : Bool := false
  mitigationSubmitted : Bool := false
  roundsUsed : ℕ := 0
  steps : List KernelStep := []
  deriving DecidableEq, Repr

/-! ## Decisions of the kernel -/

section Decisions

-- Python's `repr` of a string
variable (reprOf : String → String)

/-- `_admit_links`. -/
def admitLinks (links : List EvidenceLinkProposal) (factIds : List String) :
    List EvidenceLinkProposal × List String :=
  (links.filter (·.factId ∈ factIds), (links.filter (·.factId ∉ factIds)).map fun link =>
    "REFUSED:UNGROUNDED_LINK -- hypothesis_id=" ++ reprOf link.hypothesisId ++ " cites fact_id=" ++
      reprOf link.factId ++ ", not present in the real fact store")

/-- Whether a claim names real observations only. -/
def CandidateClaim.isGrounded (claim : CandidateClaim) (realObsIds : List String) : Bool :=
  claim.sourceObservationIds.all (· ∈ realObsIds)

def ungroundedClaim : String := "REFUSED:UNGROUNDED_CLAIM -- source_observation_ids not all real"

/-- `_compute_state`. -/
def computeState (hypothesisId : String) (groundedLinks : List EvidenceLinkProposal) :
    HypothesisState :=
  let ownLinks := groundedLinks.filter (·.hypothesisId = hypothesisId)
  if ownLinks.any (·.relation = .contradicts) then .refuted
  else if ownLinks.any (·.relation = .supports) then .supported
  else .unknown

/-- A hypothesis in the state that the links give it. -/
def AdmittedHypothesis.judge (groundedLinks : List EvidenceLinkProposal) (h : AdmittedHypothesis) :
    AdmittedHypothesis :=
  let factIds (relation : EvidenceRelation) : List String :=
    (groundedLinks.filter fun l => l.hypothesisId = h.id ∧ l.relation = relation).map (·.factId)
  { h with
    state := computeState h.id groundedLinks
    supportingFactIds := factIds .supports
    contradictingFactIds := factIds .contradicts }

def uncommittedAfterInvestigation (hypotheses : List AdmittedHypothesis)
    (allLinks : List EvidenceLinkProposal) (investigatedIds : Finset String) :
    List AdmittedHypothesis :=
  hypotheses.filter fun h => h.id ∈ investigatedIds ∧ h.id ∉ allLinks.map (·.hypothesisId) ∧
    h.state = .unknown

inductive KernelAction
  | closure | rehypothesize | discriminate
  deriving DecidableEq, Repr

def nextKernelAction (supportedCount unknownCount : ℕ) : KernelAction :=
  if supportedCount = 1 ∧ unknownCount = 0 then .closure
  else if supportedCount = 0 ∧ unknownCount = 0 then .rehypothesize
  else .discriminate

def supported (hypotheses : List AdmittedHypothesis) : List AdmittedHypothesis :=
  hypotheses.filter (·.state = .supported)

def unknownHyps (hypotheses : List AdmittedHypothesis) : List AdmittedHypothesis :=
  hypotheses.filter (·.state = .unknown)

def commitConstraintId : String := "constraint:commit-after-investigation"

/-- The constraint that names the hypotheses without a verdict. -/
def commitConstraint (uncommitted : List AdmittedHypothesis) : Constraint where
  id := commitConstraintId
  expression := "The following hypotheses already had real discriminating reads executed " ++
    "specifically for them in a prior round, but received NO evidence link at all (not even " ++
    "NON_DIAGNOSTIC) -- you MUST produce a real link for each, even if it is NON_DIAGNOSTIC " ++
    "with a real explanation of why the gathered evidence doesn't settle it: " ++
    "; ".intercalate (uncommitted.map fun h => h.id ++ ": " ++ reprOf h.proposition)

/-- Hypotheses of proposals, all UNKNOWN, under ids with a prefix. -/
def admitProposals (idPrefix : String) (proposals : List HypothesisProposal) :
    List AdmittedHypothesis :=
  proposals.mapIdx fun i p =>
    { id := idPrefix ++ toString i, proposition := p.proposition, state := .unknown,
      predictedPredicates := p.predictedPredicates, falsifier := p.falsifier }

/-- `_adapt_capability`. -/
def adaptCapability (cap : Capability) : EpistemicCapability :=
  ⟨cap.iri, cap.consequence, cap.title⟩

/-- `_find_gymact_capability`. -/
def findGymactCapability (capabilities : List Capability) (capabilityId : String) :
    Option Capability :=
  capabilities.find? (·.iri = capabilityId)

/-- The first plan that uses only real do capabilities. -/
def selectPlan (plans : List CandidatePlan) (doCapabilities : List EpistemicCapability) :
    Option CandidatePlan :=
  plans.find? fun p => p.steps.all fun step => step.capabilityId ∈ doCapabilities.map (·.id)

/-- `part in text`. -/
def occursIn (part text : String) : Bool := text.toList.tails.any (part.toList.isPrefixOf ·)

end Decisions

/-! ## The episode -/

/-- A program over the state of what stands outside : the model and the environment. -/
abbrev EpistemicM (σ : Type) := Fallible.Prog PyError σ

/-- The cognitive operators and the episode's environment. -/
structure Operators (σ : Type) where
  /-- `gym.capabilities(episode_id)`. -/
  capabilities : EpistemicM σ (List Capability)
  hypothesizer : Goal → List Fact → List Constraint → EpistemicM σ (List HypothesisProposal)
  evidenceLinker : List AdmittedHypothesis → List Fact → List Constraint →
    EpistemicM σ EvidenceMapping
  discriminator : Goal → List Fact → List AdmittedHypothesis → List EpistemicObligation →
    List EpistemicCapability → EpistemicM σ (List ReadCandidate)
  candidateClaimExtractor : List (String × String) → List Fact → EpistemicM σ (List CandidateClaim)
  diagnoser : Goal → List Fact → List AdmittedHypothesis → EpistemicM σ DiagnosisCandidate
  planConstructor : Goal → DiagnosisCandidate → List Fact → List Constraint →
    List EpistemicCapability → EpistemicM σ (List CandidatePlan)
  /-- `gym.act` of an intent for this capability and payload, in this episode. -/
  act : Capability → Payload → EpistemicM σ ActOutcome
  /-- Python's `repr` of a string. -/
  repr : String → String
  /-- Python's `str` of an effect. -/
  str : Payload → String

/-- What the caller of `run_episode` asks for. -/
structure Inquiry where
  goal : Goal
  constraints : List Constraint
  seedFacts : List Fact
  readCapabilityBindings : Finset String
  doCapabilityBindings : Finset String
  maxDiscriminateRounds : ℤ := 3

/-- The variables of the loop. -/
structure EpisodeState where
  facts : List Fact
  nextFactId : ℕ
  nextObsId : ℕ := 0
  observations : List (String × String) := []
  hypotheses : List AdmittedHypothesis
  investigatedIds : Finset String := ∅
  activeConstraints : List Constraint
  steps : List KernelStep

section Episode

variable {σ : Type} (ops : Operators σ) (inquiry : Inquiry) (capabilities : List Capability)

def Inquiry.readCapabilities : List EpistemicCapability :=
  (capabilities.filter (·.binding ∈ inquiry.readCapabilityBindings)).map adaptCapability

def Inquiry.doCapabilities : List EpistemicCapability :=
  (capabilities.filter (·.binding ∈ inquiry.doCapabilityBindings)).map adaptCapability

/-- `_execute_capability`. -/
def executeCapability (capability : Capability) (payload : Payload) : EpistemicM σ Outcome := do
  let result ← ops.act capability payload
  return ⟨result.accepted, result.standing.value, result.reason, result.effect.getD []⟩

/-- The evidence of a round : links, states, and the constraint for the next round. -/
def linkEvidence (round : ℕ) (st : EpisodeState) : EpistemicM σ (EpisodeState × EvidenceMapping) :=
    do
  let mapping ← ops.evidenceLinker st.hypotheses st.facts st.activeConstraints
  let links := admitLinks ops.repr mapping.links (st.facts.map (·.id))
  let hypotheses := st.hypotheses.map (·.judge links.1)
  let uncommitted := uncommittedAfterInvestigation hypotheses mapping.links st.investigatedIds
  let constraints := st.activeConstraints.filter (·.id ≠ commitConstraintId)
  let steps : List KernelStep := st.steps ++ [.evidenceLink round links.1.length links.2]
  if uncommitted = [] then
    return ({ st with hypotheses, steps, activeConstraints := constraints }, mapping)
  else
    let uncommittedStep : KernelStep :=
      .uncommittedAfterInvestigation round (uncommitted.map (·.id))
    return ({ st with
      hypotheses
      steps := steps ++ [uncommittedStep]
      activeConstraints := constraints ++ [commitConstraint ops.repr uncommitted] }, mapping)

/-- A fresh portfolio, every candidate having been falsified. -/
def rehypothesize (round : ℕ) (st : EpisodeState) : EpistemicM σ EpisodeState := do
  let constraints := st.activeConstraints.filter (·.id ≠ commitConstraintId)
  let proposals ← ops.hypothesizer inquiry.goal st.facts constraints
  let hypotheses := admitProposals ("hyp:r" ++ toString round ++ ":") proposals
  return { st with
    investigatedIds := ∅
    activeConstraints := constraints
    hypotheses
    steps := st.steps ++ [.rehypothesize (round + 1) (hypotheses.map (·.proposition))] }

/-- One candidate experiment. -/
def tryCandidate (st : EpisodeState) (candidate : ReadCandidate) : EpistemicM σ EpisodeState :=
  match findGymactCapability capabilities candidate.capabilityId with
  | some cap =>
    if candidate.capabilityId ∈ (inquiry.readCapabilities capabilities).map (·.id) then do
      let outcome ← executeCapability ops cap candidate.parameters
      let obsId := "obs:" ++ toString st.nextObsId
      return { st with
        nextObsId := st.nextObsId + 1
        observations := st.observations ++ [(obsId, ops.str outcome.effect)]
        investigatedIds := st.investigatedIds ∪ candidate.discriminatesHypothesisIds.toFinset
        steps := st.steps ++
          [.discriminateExecute candidate.capabilityId candidate.parameters obsId outcome] }
    else return refuse st
  | none => return refuse st
where
  refuse (st : EpisodeState) : EpisodeState := { st with
    steps := st.steps ++ [.discriminateRefused candidate.capabilityId
      "REFUSED:UNKNOWN_CAPABILITY -- not a real capability_id from read_capabilities"] }

/-- A fact of an admitted claim, under the next fact id. -/
def admitFact (st : EpisodeState) (claim : CandidateClaim) : EpisodeState :=
  let fact : Fact := ⟨"fact:" ++ toString st.nextFactId, claim.subject, claim.predicate, claim.value,
    claim.sourceObservationIds, []⟩
  { st with
    nextFactId := st.nextFactId + 1
    facts := st.facts ++ [fact]
    steps := st.steps ++ [.factAdmitted fact] }

/-- The claims drawn from the observations, admitted or refused. -/
def extractClaims (st : EpisodeState) : EpistemicM σ EpisodeState :=
  if st.observations = [] then return st
  else do
    let claims ← ops.candidateClaimExtractor st.observations st.facts
    let realObsIds := st.observations.map (·.1)
    let refused : List KernelStep := (claims.filter (!·.isGrounded realObsIds)).map fun claim =>
      .claimRefused claim.subject claim.predicate ungroundedClaim
    return (claims.filter (·.isGrounded realObsIds)).foldl admitFact
      { st with steps := st.steps ++ refused }

/-- The candidate experiments of a round, and what is claimed of their observations. -/
def experiment (candidates : List ReadCandidate) (st : EpisodeState) :
    EpistemicM σ EpisodeState := do
  let st ← candidates.foldlM (tryCandidate ops inquiry capabilities) st
  extractClaims ops st

/-- One round, and whether the loop is left. -/
def round (idx : ℕ) (st : EpisodeState) : EpistemicM σ (EpisodeState × Bool) := do
  let (st, mapping) ← linkEvidence ops (idx + 1) st
  let supported := supported st.hypotheses
  let unknownHyps := unknownHyps st.hypotheses
  match nextKernelAction supported.length unknownHyps.length with
  | .closure => return (st, true)
  | .rehypothesize => do
    let st ← rehypothesize ops inquiry idx st
    return (st, false)
  | .discriminate => do
    let candidates ← ops.discriminator inquiry.goal st.facts (supported ++ unknownHyps)
      mapping.obligations (inquiry.readCapabilities capabilities)
    if candidates = [] then return (st, true)
    else do
      let st ← experiment ops inquiry capabilities candidates st
      return (st, false)

/-- The rounds that are left, from this one, with how many were used in the end. -/
def rounds : ℕ → ℕ → EpisodeState → EpistemicM σ (EpisodeState × ℕ)
  | 0, idx, st => return (st, idx)
  | left + 1, idx, st => do
    let (st, stop) ← round ops inquiry capabilities idx st
    if stop = true then return (st, idx + 1) else rounds left (idx + 1) st

/-- What an episode that is refused returns. -/
def refusedResult (st : EpisodeState) (roundsUsed : ℕ) (reason : String)
    (diagnosis : Option DiagnosisCandidate) : EpistemicKernelResult :=
  { admitted := false, admissionReason := reason, diagnosis, selectedPlan := none, facts := st.facts,
    hypotheses := st.hypotheses, roundsUsed, steps := st.steps }

/-- A step of the selected plan. -/
def actPlanStep (acc : List KernelStep × Bool × Bool) (planStep : PlanStep) :
    EpistemicM σ (List KernelStep × Bool × Bool) :=
  match findGymactCapability capabilities planStep.capabilityId with
  | none => return acc
  | some cap => do
    let outcome ← executeCapability ops cap planStep.parameters
    return (acc.1 ++ [.brceAct planStep.capabilityId planStep.parameters outcome],
      if occursIn "diagnosis" cap.binding then outcome.accepted else acc.2.1,
      if occursIn "mitigation" cap.binding then outcome.accepted else acc.2.2)

/-- `repr` of a list of strings. -/
def reprList (l : List String) : String := "[" ++ ", ".intercalate (l.map ops.repr) ++ "]"

/-- What an admitted episode returns, its acts done. -/
def admittedResult (survivor : AdmittedHypothesis) (diagnosis : DiagnosisCandidate)
    (plan : CandidatePlan) (st : EpisodeState) (roundsUsed : ℕ)
    (acts : List KernelStep × Bool × Bool) : EpistemicKernelResult :=
  { admitted := true
    admissionReason := "ADMITTED -- " ++ ops.repr survivor.proposition ++
      " is the sole supported hypothesis"
    diagnosis := some diagnosis
    selectedPlan := some plan
    facts := st.facts
    hypotheses := st.hypotheses
    diagnosisSubmitted := acts.2.1
    mitigationSubmitted := acts.2.2
    roundsUsed
    steps := acts.1 }

/-- From the diagnosis on, with the one SUPPORTED hypothesis. -/
def diagnose (survivor : AdmittedHypothesis) (st : EpisodeState) (roundsUsed : ℕ) :
    EpistemicM σ EpistemicKernelResult := do
  let diagnosis ← ops.diagnoser inquiry.goal st.facts st.hypotheses
  if diagnosis.supportedHypothesisIds.toFinset ≠ {survivor.id} then
    return refusedResult st roundsUsed
      ("REFUSED:DIAGNOSIS_DIVERGES_FROM_ADMITTED_STATE -- diagnosis names " ++
        reprList ops diagnosis.supportedHypothesisIds ++ " but the kernel computed exactly " ++
        ops.repr survivor.id ++ " as SUPPORTED") (some diagnosis)
  else do
    let st := { st with steps := st.steps ++ [.diagnose diagnosis] }
    let plans ← ops.planConstructor inquiry.goal diagnosis st.facts inquiry.constraints
      (inquiry.doCapabilities capabilities)
    match selectPlan plans (inquiry.doCapabilities capabilities) with
    | none => return refusedResult st roundsUsed ("REFUSED:NO_VALID_PLAN -- no candidate plan " ++
        "referenced only real do_capabilities") (some diagnosis)
    | some plan => do
      let acts ←
        plan.steps.foldlM (actPlanStep ops capabilities) (st.steps ++ [.construct plan], false, false)
      return admittedResult ops survivor diagnosis plan st roundsUsed acts

/-- What follows the rounds. -/
def conclude (st : EpisodeState) (roundsUsed : ℕ) : EpistemicM σ EpistemicKernelResult :=
  match supported st.hypotheses with
  | [survivor] => diagnose ops inquiry capabilities survivor st roundsUsed
  | [] => return refusedResult st roundsUsed ("REFUSED:NO_SUPPORTED_HYPOTHESIS -- no hypothesis " ++
      "reached SUPPORTED after " ++ toString roundsUsed ++ " round(s)") none
  | several => return refusedResult st roundsUsed ("REFUSED:MULTIPLE_SUPPORTED_HYPOTHESES -- " ++
      reprList ops (several.map (·.proposition)) ++
      ", a real diagnosis names exactly one root cause") none

/-- The variables before the rounds. -/
def Inquiry.start (proposals : List HypothesisProposal) : EpisodeState :=
  let hypotheses := admitProposals "hyp:" proposals
  { facts := inquiry.seedFacts, nextFactId := inquiry.seedFacts.length, hypotheses,
    activeConstraints := inquiry.constraints,
    steps := [.hypothesize (hypotheses.map (·.proposition))] }

def runEpisode : EpistemicM σ EpistemicKernelResult := do
  let capabilities ← ops.capabilities
  let proposals ← ops.hypothesizer inquiry.goal inquiry.seedFacts inquiry.constraints
  let (st, roundsUsed) ← rounds ops inquiry capabilities inquiry.maxDiscriminateRounds.toNat 0
    (inquiry.start proposals)
  conclude ops inquiry capabilities st roundsUsed

end Episode

/-! ## Decided and open -/

/-- One hypothesis is SUPPORTED and none UNKNOWN. -/
def Decided (hypotheses : List AdmittedHypothesis) : Prop :=
  (supported hypotheses).length = 1 ∧ unknownHyps hypotheses = []

/-- One hypothesis is SUPPORTED beside UNKNOWN ones. -/
def Undecided (hypotheses : List AdmittedHypothesis) : Prop :=
  (supported hypotheses).length = 1 ∧ unknownHyps hypotheses ≠ []

section Rounds

variable {σ : Type} (ops : Operators σ) (inquiry : Inquiry) (capabilities : List Capability)

/-- The rounds are left right after evidence that supports one hypothesis and leaves another
UNKNOWN : no experiment is proposed, or it was the last round. -/
inductive LeftOpen : ℕ → ℕ → EpisodeState → σ → EpisodeState → ℕ → σ → Prop
  | stuck {left idx : ℕ} {st st₁ : EpisodeState} {mapping : EvidenceMapping} {s s₁ s₂ : σ}
      (hlink : Returns (linkEvidence ops (idx + 1) st) s (st₁, mapping) s₁)
      (hopen : Undecided st₁.hypotheses)
      (hnone : Returns (ops.discriminator inquiry.goal st₁.facts
        (supported st₁.hypotheses ++ unknownHyps st₁.hypotheses) mapping.obligations
        (inquiry.readCapabilities capabilities)) s₁ [] s₂) :
      LeftOpen (left + 1) idx st s st₁ (idx + 1) s₂
  | limit {idx : ℕ} {st st₁ st₂ : EpisodeState} {mapping : EvidenceMapping}
      {candidates : List ReadCandidate} {s s₁ s₂ s₃ : σ}
      (hlink : Returns (linkEvidence ops (idx + 1) st) s (st₁, mapping) s₁)
      (hopen : Undecided st₁.hypotheses)
      (hsome : Returns (ops.discriminator inquiry.goal st₁.facts
        (supported st₁.hypotheses ++ unknownHyps st₁.hypotheses) mapping.obligations
        (inquiry.readCapabilities capabilities)) s₁ candidates s₂)
      (hcandidates : candidates ≠ [])
      (hexperiment : Returns (experiment ops inquiry capabilities candidates st₁) s₂ st₂ s₃) :
      LeftOpen 1 idx st s st₂ (idx + 1) s₃
  | later {left idx used : ℕ} {st st₁ st₂ : EpisodeState} {s s₁ s₂ : σ}
      (hround : Returns (round ops inquiry capabilities idx st) s (st₁, false) s₁)
      (hlater : LeftOpen left (idx + 1) st₁ s₁ st₂ used s₂) :
      LeftOpen (left + 1) idx st s st₂ used s₂

/-- The rest of an episode goes through : the diagnosis names the survivor, a plan uses real
do capabilities only, and its acts return. -/
def GoesThrough (survivor : AdmittedHypothesis) (st : EpisodeState) (s : σ) : Prop :=
  ∃ diagnosis s₁ plans s₂ plan acts s₃,
    Returns (ops.diagnoser inquiry.goal st.facts st.hypotheses) s diagnosis s₁ ∧
    diagnosis.supportedHypothesisIds.toFinset = {survivor.id} ∧
    Returns (ops.planConstructor inquiry.goal diagnosis st.facts inquiry.constraints
      (inquiry.doCapabilities capabilities)) s₁ plans s₂ ∧
    selectPlan plans (inquiry.doCapabilities capabilities) = some plan ∧
    Returns (plan.steps.foldlM (actPlanStep ops capabilities)
      (st.steps ++ [.diagnose diagnosis] ++ [.construct plan], false, false)) s₂ acts s₃

/-- The rounds are left open, and the episode goes through all the same. -/
def AdmitsOpen (s : σ) : Prop :=
  ∃ capabilities s₁ proposals s₂ st used s₃ survivor,
    Returns ops.capabilities s capabilities s₁ ∧
    Returns (ops.hypothesizer inquiry.goal inquiry.seedFacts inquiry.constraints) s₁ proposals s₂ ∧
    LeftOpen ops inquiry capabilities inquiry.maxDiscriminateRounds.toNat 0
      (inquiry.start proposals) s₂ st used s₃ ∧
    supported st.hypotheses = [survivor] ∧ GoesThrough ops inquiry capabilities survivor st s₃

variable {ops inquiry capabilities}

theorem supported_admitProposals (idPrefix : String) (proposals : List HypothesisProposal) :
    supported (admitProposals idPrefix proposals) = [] := by
  refine List.filter_eq_nil_iff.mpr fun h hh => ?_
  obtain ⟨i, hi, rfl⟩ := List.mem_mapIdx.mp hh
  simp

theorem not_undecided_admitProposals (idPrefix : String) (proposals : List HypothesisProposal) :
    ¬ Undecided (admitProposals idPrefix proposals) := by
  intro h
  rw [Undecided, supported_admitProposals] at h
  cases h.1

theorem tryCandidate_hypotheses {st st' : EpisodeState} {candidate : ReadCandidate} {s s' : σ}
    (h : Returns (tryCandidate ops inquiry capabilities st candidate) s st' s') :
    st'.hypotheses = st.hypotheses := by
  unfold tryCandidate at h
  split at h
  · split_ifs at h
    · obtain ⟨outcome, s₁, -, h⟩ := Fallible.returns_bind_iff.mp h
      obtain ⟨rfl, -⟩ := Fallible.returns_pure_iff.mp h
      rfl
    · obtain ⟨rfl, -⟩ := Fallible.returns_pure_iff.mp h
      rfl
  · obtain ⟨rfl, -⟩ := Fallible.returns_pure_iff.mp h
    rfl

theorem foldl_admitFact_hypotheses (claims : List CandidateClaim) (st : EpisodeState) :
    (claims.foldl admitFact st).hypotheses = st.hypotheses := by
  induction claims generalizing st with
  | nil => rfl
  | cons claim claims ih => exact ih _

theorem extractClaims_hypotheses {st st' : EpisodeState} {s s' : σ}
    (h : Returns (extractClaims ops st) s st' s') : st'.hypotheses = st.hypotheses := by
  unfold extractClaims at h
  split_ifs at h
  · obtain ⟨rfl, -⟩ := Fallible.returns_pure_iff.mp h
    rfl
  · obtain ⟨claims, s₁, -, h⟩ := Fallible.returns_bind_iff.mp h
    obtain ⟨rfl, -⟩ := Fallible.returns_pure_iff.mp h
    exact foldl_admitFact_hypotheses _ _

/-- Experiments change no hypothesis. -/
theorem experiment_hypotheses {candidates : List ReadCandidate} {st st' : EpisodeState} {s s' : σ}
    (h : Returns (experiment ops inquiry capabilities candidates st) s st' s') :
    st'.hypotheses = st.hypotheses := by
  obtain ⟨st₁, s₁, hfold, hclaims⟩ := Fallible.returns_bind_iff.mp h
  have hkeep : st₁.hypotheses = st.hypotheses :=
    Fallible.Returns.foldlM (I := fun st' => st'.hypotheses = st.hypotheses)
      (fun _ _ _ _ _ hb hstep => (tryCandidate_hypotheses hstep).trans hb) rfl hfold
  exact (extractClaims_hypotheses hclaims).trans hkeep

/-- A round that returns : decided, rehypothesized, stuck, or gone on. -/
theorem round_cases {idx : ℕ} {st st' : EpisodeState} {stop : Bool} {s s' : σ}
    (h : Returns (round ops inquiry capabilities idx st) s (st', stop) s') :
    ∃ st₁ mapping s₁, Returns (linkEvidence ops (idx + 1) st) s (st₁, mapping) s₁ ∧
      ((stop = true ∧ st' = st₁ ∧ unknownHyps st₁.hypotheses = []) ∨
        (stop = false ∧ supported st'.hypotheses = []) ∨
        ∃ candidates s₂, Returns (ops.discriminator inquiry.goal st₁.facts
            (supported st₁.hypotheses ++ unknownHyps st₁.hypotheses) mapping.obligations
            (inquiry.readCapabilities capabilities)) s₁ candidates s₂ ∧
          ((candidates = [] ∧ stop = true ∧ st' = st₁ ∧ s' = s₂) ∨ candidates ≠ [] ∧ stop = false ∧
            Returns (experiment ops inquiry capabilities candidates st₁) s₂ st' s')) := by
  obtain ⟨⟨st₁, mapping⟩, s₁, hlink, h⟩ := Fallible.returns_bind_iff.mp h
  refine ⟨st₁, mapping, s₁, hlink, ?_⟩
  dsimp only at h
  split at h
  · next haction =>
    obtain ⟨heq, -⟩ := Fallible.returns_pure_iff.mp h
    obtain ⟨rfl, rfl⟩ := Prod.mk.inj heq
    refine Or.inl ⟨rfl, rfl, ?_⟩
    unfold nextKernelAction at haction
    split_ifs at haction with hcounts
    exact List.length_eq_zero_iff.mp hcounts.2
  · obtain ⟨st₂, s₂, hfresh, h⟩ := Fallible.returns_bind_iff.mp h
    obtain ⟨heq, -⟩ := Fallible.returns_pure_iff.mp h
    obtain ⟨rfl, rfl⟩ := Prod.mk.inj heq
    obtain ⟨proposals, s₃, -, h⟩ := Fallible.returns_bind_iff.mp hfresh
    obtain ⟨rfl, -⟩ := Fallible.returns_pure_iff.mp h
    exact Or.inr (Or.inl ⟨rfl, supported_admitProposals _ _⟩)
  · obtain ⟨candidates, s₂, hcandidates, h⟩ := Fallible.returns_bind_iff.mp h
    refine Or.inr (Or.inr ⟨candidates, s₂, hcandidates, ?_⟩)
    split_ifs at h with hnone
    · obtain ⟨heq, rfl⟩ := Fallible.returns_pure_iff.mp h
      obtain ⟨rfl, rfl⟩ := Prod.mk.inj heq
      exact Or.inl ⟨hnone, rfl, rfl, rfl⟩
    · obtain ⟨st₂, s₃, hexperiment, h⟩ := Fallible.returns_bind_iff.mp h
      obtain ⟨heq, rfl⟩ := Fallible.returns_pure_iff.mp h
      obtain ⟨rfl, rfl⟩ := Prod.mk.inj heq
      exact Or.inr ⟨hnone, rfl, hexperiment⟩

/-- After evidence that leaves the frontier open, the discriminator is asked. -/
theorem round_open {idx : ℕ} {st st₁ : EpisodeState} {mapping : EvidenceMapping} {s s₁ : σ}
    (hlink : Returns (linkEvidence ops (idx + 1) st) s (st₁, mapping) s₁)
    (hopen : Undecided st₁.hypotheses) {candidates : List ReadCandidate} {s₂ : σ}
    (hcandidates : Returns (ops.discriminator inquiry.goal st₁.facts
      (supported st₁.hypotheses ++ unknownHyps st₁.hypotheses) mapping.obligations
      (inquiry.readCapabilities capabilities)) s₁ candidates s₂) {st' : EpisodeState} {stop : Bool}
    {s' : σ} (hrest : (candidates = [] ∧ stop = true ∧ st' = st₁ ∧ s' = s₂) ∨
      candidates ≠ [] ∧ stop = false ∧
        Returns (experiment ops inquiry capabilities candidates st₁) s₂ st' s') :
    Returns (round ops inquiry capabilities idx st) s (st', stop) s' := by
  have haction : nextKernelAction (supported st₁.hypotheses).length
      (unknownHyps st₁.hypotheses).length = .discriminate := by
    have hunknown := mt List.length_eq_zero_iff.mp hopen.2
    simp [nextKernelAction, hunknown]
  refine Fallible.returns_bind_iff.mpr ⟨(st₁, mapping), s₁, hlink, ?_⟩
  dsimp only
  rw [haction]
  refine Fallible.returns_bind_iff.mpr ⟨candidates, s₂, hcandidates, ?_⟩
  rcases hrest with ⟨hnone, rfl, rfl, rfl⟩ | ⟨hsome, rfl, hexperiment⟩
  · rw [if_pos hnone]
    exact Fallible.returns_pure_iff.mpr ⟨rfl, rfl⟩
  · rw [if_neg hsome]
    exact Fallible.returns_bind_iff.mpr
      ⟨st', s', hexperiment, Fallible.returns_pure_iff.mpr ⟨rfl, rfl⟩⟩

/-- The rounds after one that stops, or goes on. -/
theorem returns_rounds_succ {left idx used : ℕ} {st st' : EpisodeState} {s s' : σ} :
    Returns (rounds ops inquiry capabilities (left + 1) idx st) s (st', used) s' ↔
      (Returns (round ops inquiry capabilities idx st) s (st', true) s' ∧ used = idx + 1) ∨
      ∃ st₁ s₁, Returns (round ops inquiry capabilities idx st) s (st₁, false) s₁ ∧
        Returns (rounds ops inquiry capabilities left (idx + 1) st₁) s₁ (st', used) s' := by
  rw [rounds, Fallible.returns_bind_iff]
  constructor
  · rintro ⟨⟨st₁, stop⟩, s₁, hround, h⟩
    cases stop with
    | true =>
      obtain ⟨heq, rfl⟩ := Fallible.returns_pure_iff.mp h
      obtain ⟨rfl, rfl⟩ := Prod.mk.inj heq
      exact Or.inl ⟨hround, rfl⟩
    | false => exact Or.inr ⟨st₁, s₁, hround, h⟩
  · rintro (⟨hround, rfl⟩ | ⟨st₁, s₁, hround, hrest⟩)
    · exact ⟨(st', true), s', hround, Fallible.returns_pure_iff.mpr ⟨rfl, rfl⟩⟩
    · exact ⟨(st₁, false), s₁, hround, hrest⟩

/-- Rounds that are left open return, undecided. -/
theorem LeftOpen.returns {left idx used : ℕ} {st st' : EpisodeState} {s s' : σ}
    (h : LeftOpen ops inquiry capabilities left idx st s st' used s') :
    Returns (rounds ops inquiry capabilities left idx st) s (st', used) s' ∧
      Undecided st'.hypotheses := by
  induction h with
  | stuck hlink hopen hnone =>
    have hround := round_open hlink hopen hnone (Or.inl ⟨rfl, rfl, rfl, rfl⟩)
    exact ⟨returns_rounds_succ.mpr (Or.inl ⟨hround, rfl⟩), hopen⟩
  | limit hlink hopen hsome hcandidates hexperiment =>
    have hround := round_open hlink hopen hsome (Or.inr ⟨hcandidates, rfl, hexperiment⟩)
    refine ⟨returns_rounds_succ.mpr (Or.inr ⟨_, _, hround, ?_⟩), ?_⟩
    · exact Fallible.returns_pure_iff.mpr ⟨rfl, rfl⟩
    · rwa [experiment_hypotheses hexperiment]
  | later hround hlater ih =>
    exact ⟨returns_rounds_succ.mpr (Or.inr ⟨_, _, hround, ih.1⟩), ih.2⟩

/-- A round that stops undecided has no experiment. -/
theorem leftOpen_of_stop {left idx : ℕ} {st st' : EpisodeState} {s s' : σ}
    (h : Returns (round ops inquiry capabilities idx st) s (st', true) s')
    (hopen : Undecided st'.hypotheses) :
    LeftOpen ops inquiry capabilities (left + 1) idx st s st' (idx + 1) s' := by
  obtain ⟨st₁, mapping, s₁, hlink, hcases⟩ := round_cases h
  rcases hcases with ⟨-, rfl, hnone⟩ | ⟨hstop, -⟩ | ⟨candidates, s₂, hcandidates, hrest⟩
  · exact absurd hnone hopen.2
  · cases hstop
  rcases hrest with ⟨rfl, -, rfl, rfl⟩ | ⟨-, hstop, -⟩
  · exact .stuck hlink hopen hcandidates
  · cases hstop

/-- Rounds that end undecided were left open. -/
theorem leftOpen_of_returns {left idx used : ℕ} {st st' : EpisodeState} {s s' : σ}
    (h : Returns (rounds ops inquiry capabilities (left + 1) idx st) s (st', used) s')
    (hopen : Undecided st'.hypotheses) :
    LeftOpen ops inquiry capabilities (left + 1) idx st s st' used s' := by
  induction left generalizing idx st s with
  | zero =>
    rcases returns_rounds_succ.mp h with ⟨hround, rfl⟩ | ⟨st₁, s₁, hround, hrest⟩
    · exact leftOpen_of_stop hround hopen
    · obtain ⟨heq, rfl⟩ := Fallible.returns_pure_iff.mp hrest
      obtain ⟨rfl, rfl⟩ := Prod.mk.inj heq
      obtain ⟨st₂, mapping, s₂, hlink, hcases⟩ := round_cases hround
      rcases hcases with ⟨hstop, -⟩ | ⟨-, hfresh⟩ | ⟨candidates, s₃, hcandidates, hrest⟩
      · cases hstop
      · exact absurd hopen.1 (by simp [hfresh])
      rcases hrest with ⟨-, hstop, -⟩ | ⟨hsome, -, hexperiment⟩
      · cases hstop
      · refine .limit hlink ?_ hcandidates hsome hexperiment
        rwa [experiment_hypotheses hexperiment] at hopen
  | succ left ih =>
    rcases returns_rounds_succ.mp h with ⟨hround, rfl⟩ | ⟨st₁, s₁, hround, hrest⟩
    · exact leftOpen_of_stop hround hopen
    · exact .later hround (ih hrest)

/-- An admitted conclusion keeps the hypotheses, of which one is SUPPORTED, and its rest goes
through. -/
theorem conclude_admitted {st : EpisodeState} {used : ℕ} {s s' : σ} {result : EpistemicKernelResult}
    (h : Returns (conclude ops inquiry capabilities st used) s result s')
    (hadmitted : result.admitted = true) :
    result.hypotheses = st.hypotheses ∧ ∃ survivor, supported st.hypotheses = [survivor] ∧
      GoesThrough ops inquiry capabilities survivor st s := by
  unfold conclude at h
  split at h
  · next survivor hsurvivor =>
    obtain ⟨diagnosis, s₁, hdiagnosis, h⟩ := Fallible.returns_bind_iff.mp h
    split_ifs at h with hnames
    · obtain ⟨rfl, -⟩ := Fallible.returns_pure_iff.mp h
      cases hadmitted
    obtain ⟨plans, s₂, hplans, h⟩ := Fallible.returns_bind_iff.mp h
    split at h
    · obtain ⟨rfl, -⟩ := Fallible.returns_pure_iff.mp h
      cases hadmitted
    · next plan hplan =>
      obtain ⟨acts, s₃, hacts, h⟩ := Fallible.returns_bind_iff.mp h
      obtain ⟨rfl, -⟩ := Fallible.returns_pure_iff.mp h
      exact ⟨rfl, survivor, hsurvivor, diagnosis, s₁, plans, s₂, plan, acts, s₃, hdiagnosis,
        not_not.mp hnames, hplans, hplan, hacts⟩
  · obtain ⟨rfl, -⟩ := Fallible.returns_pure_iff.mp h
    cases hadmitted
  · obtain ⟨rfl, -⟩ := Fallible.returns_pure_iff.mp h
    cases hadmitted

theorem conclude_of_goesThrough {st : EpisodeState} {used : ℕ} {s : σ}
    {survivor : AdmittedHypothesis} (hsurvivor : supported st.hypotheses = [survivor])
    (h : GoesThrough ops inquiry capabilities survivor st s) :
    ∃ result s', Returns (conclude ops inquiry capabilities st used) s result s' ∧
      result.admitted = true ∧ result.hypotheses = st.hypotheses := by
  obtain ⟨diagnosis, s₁, plans, s₂, plan, acts, s₃, hdiagnosis, hnames, hplans, hplan, hacts⟩ := h
  have hconclude : conclude ops inquiry capabilities st used =
      diagnose ops inquiry capabilities survivor st used := by
    rw [conclude, hsurvivor]
  rw [hconclude]
  let st' : EpisodeState := { st with steps := st.steps ++ [.diagnose diagnosis] }
  refine ⟨admittedResult ops survivor diagnosis plan st' used acts, s₃, ?_, rfl, rfl⟩
  refine Fallible.returns_bind_iff.mpr ⟨diagnosis, s₁, hdiagnosis, ?_⟩
  rw [if_neg (not_not.mpr hnames)]
  refine Fallible.returns_bind_iff.mpr ⟨plans, s₂, hplans, ?_⟩
  dsimp only
  rw [hplan]
  exact Fallible.returns_bind_iff.mpr ⟨acts, s₃, hacts, Fallible.returns_pure_iff.mpr ⟨rfl, rfl⟩⟩

end Rounds

/-- An admitted episode is decided exactly where it is not left open and admitted all the same. -/
theorem episode_decided_iff {σ : Type} (ops : Operators σ) (inquiry : Inquiry) (s : σ) :
    (∀ result s', Returns (runEpisode ops inquiry) s result s' → result.admitted = true →
      Decided result.hypotheses) ↔ ¬ AdmitsOpen ops inquiry s := by
  constructor
  · rintro h ⟨capabilities, s₁, proposals, s₂, st, used, s₃, survivor, hcapabilities, hproposals,
      hleft, hsurvivor, hthrough⟩
    obtain ⟨hrounds, hopen⟩ := hleft.returns
    obtain ⟨result, s', hconclude, hadmitted, hsame⟩ :=
      conclude_of_goesThrough hsurvivor hthrough
    have hrun : Returns (runEpisode ops inquiry) s result s' :=
      Fallible.returns_bind_iff.mpr ⟨capabilities, s₁, hcapabilities,
        Fallible.returns_bind_iff.mpr ⟨proposals, s₂, hproposals,
          Fallible.returns_bind_iff.mpr ⟨(st, used), s₃, hrounds, hconclude⟩⟩⟩
    have hdecided := h result s' hrun hadmitted
    rw [hsame] at hdecided
    exact hopen.2 hdecided.2
  · intro h result s' hrun hadmitted
    obtain ⟨capabilities, s₁, hcapabilities, hrun⟩ := Fallible.returns_bind_iff.mp hrun
    obtain ⟨proposals, s₂, hproposals, hrun⟩ := Fallible.returns_bind_iff.mp hrun
    obtain ⟨⟨st, used⟩, s₃, hrounds, hconclude⟩ := Fallible.returns_bind_iff.mp hrun
    obtain ⟨hsame, survivor, hsurvivor, hthrough⟩ := conclude_admitted hconclude hadmitted
    have hone : (supported st.hypotheses).length = 1 := by rw [hsurvivor]; rfl
    rw [hsame]
    refine ⟨hone, not_not.mp fun hunknown => h ?_⟩
    refine ⟨capabilities, s₁, proposals, s₂, st, used, s₃, survivor, hcapabilities, hproposals, ?_,
      hsurvivor, hthrough⟩
    -- no round at all leaves the first portfolio, of which nothing is SUPPORTED
    cases hleft : inquiry.maxDiscriminateRounds.toNat with
    | zero =>
      rw [hleft] at hrounds
      obtain ⟨heq, rfl⟩ := Fallible.returns_pure_iff.mp hrounds
      obtain ⟨rfl, -⟩ := Prod.mk.inj heq
      exact absurd ⟨hone, hunknown⟩ (not_undecided_admitProposals "hyp:" proposals)
    | succ left =>
      rw [hleft] at hrounds
      exact leftOpen_of_returns hrounds ⟨hone, hunknown⟩

/-! ## An episode admitted open -/

/-- Operators that answer always the same : two hypotheses, evidence for the first, no
experiment, and a plan without steps. -/
def sampleOperators : Operators Unit where
  capabilities := pure []
  hypothesizer _ _ _ := pure [⟨"the disk is full", [], "df"⟩, ⟨"the network is down", [], "ping"⟩]
  evidenceLinker _ _ _ := pure { links := [⟨"hyp:0", "fact:seed", .supports⟩] }
  discriminator _ _ _ _ _ := pure []
  candidateClaimExtractor _ _ := pure []
  diagnoser _ _ _ := pure ⟨["hyp:0"], [], [], ""⟩
  planConstructor _ _ _ _ _ := pure [⟨"wait", []⟩]
  act _ _ := pure ⟨true, .alive, none, none⟩
  repr text := "'" ++ text ++ "'"
  str _ := "{}"

def sampleInquiry : Inquiry where
  goal := ⟨"goal", [], [], []⟩
  constraints := []
  seedFacts := [⟨"fact:seed", "disk", "usage", "100%", [], []⟩]
  readCapabilityBindings := ∅
  doCapabilityBindings := ∅

/-- The second hypothesis is still UNKNOWN when the first one's diagnosis is admitted. -/
theorem admitted_undecided :
    ¬ ∀ result s', Returns (runEpisode sampleOperators sampleInquiry) () result s' →
      result.admitted = true → Decided result.hypotheses := by
  intro h
  have hdecided := h _ () rfl rfl
  exact absurd hdecided.2 (by decide)

end Epistemic

end GymAct
