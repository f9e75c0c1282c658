import Mathlib.Algebra.BigOperators.Group.List.Basic
import Mathlib.Algebra.Order.Field.Basic
import Mathlib.Algebra.Order.Ring.Rat
import Mathlib.Data.Finset.Card
import Mathlib.Data.List.MinMax
import Mathlib.Data.Prod.Lex
import Mathlib.Data.String.Basic
import GymAct.Grouping
import GymAct.Value

/-!
# Scores of rule verdicts

`deduplicate_cascades`, `cascade_fairness_exclusions`, `compute_metrics` and `common_support` of
`harness_if.py`, with exact fractions for floats and `math.sqrt` as a parameter.

All that the metrics read of a group is its elements, so that the order of the verdicts does not
matter to them (`computeMetrics_perm`). The exclusions read the last of an agent's verdicts on a
rule : `exclusions_order_free_iff`.
-/

namespace GymAct

namespace HarnessIf

/-! ## Verdicts -/

inductive Surface
  | harnessDefault | systemPrompt | toolDescription | skillDescription | projectFile
  | userInstruction
  deriving DecidableEq, Repr

inductive ScoringMethod
  | regex | ast | crossFile | commandOutput | hybrid | llmJudge
  deriving DecidableEq, Repr

inductive Severity
  | must | should | may
  deriving DecidableEq, Repr

def Severity.weight : Severity → ℕ
  | must => 3
  | should => 2
  | may => 1

inductive Prior
  | align | against | neutral
  deriving DecidableEq, Repr

inductive VerdictStatus
  | pass | fail | noOpportunity | partialVerdict
  deriving DecidableEq, Repr

def VerdictStatus.eligible : VerdictStatus → Bool
  | pass | fail => true
  | noOpportunity | partialVerdict => false

/-- A rule, as far as scoring reads it. -/
structure Constraint where
  ruleId : String
  severity : Severity
  prior : Prior
  deriving DecidableEq, Repr

/-- `Mapping[str, Constraint]`. -/
abbrev Library := String → Option Constraint

structure RuleVerdict where
  agentId : String
  itemId : String
  roundId : ℕ
  ruleId : String
  surface : Surface
  status : VerdictStatus
  method : ScoringMethod
  reason : String := ""
  evidenceRefs : List String := []
  cascadeId : Option String := none
  missingArtifactRef : Option String := none
  deriving DecidableEq, Repr

namespace RuleVerdict

def observationKey (v : RuleVerdict) : String × ℕ × String := (v.itemId, v.roundId, v.ruleId)

def eligible (v : RuleVerdict) : Bool := v.status.eligible

/-- `z`, of a verdict that is eligible. -/
def z (v : RuleVerdict) : ℕ := if v.status = .pass then 1 else 0

/-- The cascade that a failure is part of. -/
def cascade (v : RuleVerdict) : Option (String × String × ℕ × String) :=
  if v.status = .fail then
    match v.cascadeId with
    | none => none
    | some cascadeId =>
      if cascadeId = "" then none else some (v.agentId, v.itemId, v.roundId, cascadeId)
  else none

end RuleVerdict

/-! ## `deduplicate_cascades` -/

/-- What `max` compares. -/
def severityKey (library : Library) (v : RuleVerdict) : Except PyError (ℕ ×ₗ String) :=
  match library v.ruleId with
  | some rule => .ok (toLex (rule.severity.weight, v.ruleId))
  | none => .error ⟨"KeyError", v.ruleId⟩

/-- A dependent failure, which had no opportunity. -/
def demote (v : RuleVerdict) : RuleVerdict :=
  { v with
    status := .noOpportunity
    reason := "CASCADE_DEDUP:" ++ v.reason }

/-- The failures of one cascade, each with its index in the verdicts. -/
abbrev Cascade := Option (String × String × ℕ × String) × List (RuleVerdict × ℕ)

/-- The body of the loop over the cascades. -/
def dropDependents (library : Library) (result : List RuleVerdict) (group : Cascade) :
    Except PyError (List RuleVerdict) :=
  if group.2.length < 2 then .ok result
  else do
    let keyed ← group.2.mapM fun item => (severityKey library item.1).map fun key => (key, item.2)
    match keyed.argmax Prod.fst with
    | none => .ok result
    | some keeper =>
      .ok (((group.2.map Prod.snd).filter (· ≠ keeper.2)).foldl
        (fun result index => result.modify index demote) result)

/-- `groups`. -/
def cascades (verdicts : List RuleVerdict) : List Cascade :=
  Grouping.group (fun item => item.1.cascade)
    (verdicts.zipIdx.filter fun item => item.1.cascade.isSome)

def deduplicateCascades (verdicts : List RuleVerdict) (library : Library) :
    Except PyError (List RuleVerdict) :=
  (cascades verdicts).foldlM (dropDependents library) verdicts

/-! ## `cascade_fairness_exclusions` -/

def missesArtifact (v : RuleVerdict) : Bool :=
  v.status = .noOpportunity ∧ v.missingArtifactRef ≠ none

/-- `by_agent.values()` of one rule : a later verdict of an agent overwrites an earlier one. -/
def lastByAgent (verdicts : List RuleVerdict) : List RuleVerdict :=
  (Grouping.group RuleVerdict.agentId verdicts).filterMap fun group => group.2.getLast?

def cascadeFairnessExclusions (verdicts : List RuleVerdict) (minAgents : ℤ) (threshold : ℚ) :
    Finset String :=
  (((Grouping.group RuleVerdict.ruleId verdicts).filter fun group =>
    let byAgent := lastByAgent group.2
    ¬(byAgent.length : ℤ) < minAgents ∧
      threshold ≤ (byAgent.countP missesArtifact : ℚ) / byAgent.length).map Prod.fst).toFinset

/-! ## `compute_metrics` -/

structure AgentMetrics where
  agentId : String
  accuracy : Option ℚ
  filteredAccuracy : Option ℚ
  discriminationWeightedAccuracy : Option ℚ
  againstPriorAccuracy : Option ℚ
  eligible : ℕ
  filteredEligible : ℕ
  againstPriorEligible : ℕ
  deriving DecidableEq, Repr

structure CohortMetrics where
  agents : List AgentMetrics
  discriminationWeights : List (String × ℚ)
  discriminatingObservations : Finset (String × ℕ × String)
  excludedDesignGapRules : Finset String
  deriving DecidableEq

/-- `_rate`. -/
def rate (values : List ℕ) : Option ℚ :=
  if values = [] then none else some (values.sum / values.length)

/-- `_pearson`. -/
def pearson (sqrt : ℚ → ℚ) (xs ys : List ℚ) : Option ℚ :=
  if xs.length ≠ ys.length ∨ xs.length < 2 then none
  else
    let meanX := xs.sum / xs.length
    let meanY := ys.sum / ys.length
    let dx := xs.map (· - meanX)
    let dy := ys.map (· - meanY)
    let denominator := sqrt ((dx.map fun value => value * value).sum *
      (dy.map fun value => value * value).sum)
    if denominator = 0 then none
    else some ((List.zipWith (fun x y => x * y) dx dy).sum / denominator)

/-- The rows that count. -/
def counted (excluded : Finset String) (verdicts : List RuleVerdict) : List RuleVerdict :=
  verdicts.filter fun v => v.eligible ∧ v.ruleId ∉ excluded

/-- `_eligible_by_agent`. -/
def eligibleByAgent (verdicts : List RuleVerdict) (excluded : Finset String) :
    List (String × List RuleVerdict) :=
  Grouping.group RuleVerdict.agentId (counted excluded verdicts)

/-- `_discriminating_keys`. -/
def discriminatingKeys (verdicts : List RuleVerdict) (excluded : Finset String) :
    Finset (String × ℕ × String) :=
  (((Grouping.group RuleVerdict.observationKey (counted excluded verdicts)).filter fun group =>
    1 < (group.2.map RuleVerdict.z).toFinset.card).map Prod.fst).toFinset

/-- `by_agent[agent]`. -/
def rowsOf (byAgent : List (String × List RuleVerdict)) (agent : String) : List RuleVerdict :=
  (byAgent.lookup agent).getD []

/-- `overall`. -/
def overall (byAgent : List (String × List RuleVerdict)) (agent : String) : Option ℚ :=
  rate ((rowsOf byAgent agent).map RuleVerdict.z)

/-- The rates of one rule and overall, of each agent that has it. -/
def ratePairs (byAgent : List (String × List RuleVerdict)) (rows : List RuleVerdict) :
    List (ℚ × ℚ) :=
  (Grouping.group RuleVerdict.agentId rows).filterMap fun group =>
    (overall byAgent group.1).map fun rate =>
      ((group.2.map RuleVerdict.z).sum / (group.2.length : ℚ), rate)

def ruleWeight (sqrt : ℚ → ℚ) (byAgent : List (String × List RuleVerdict))
    (rows : List RuleVerdict) : ℚ :=
  let pairs := ratePairs byAgent rows
  match pearson sqrt (pairs.map Prod.fst) (pairs.map Prod.snd) with
  | some correlation => max 0 correlation
  | none => 0

/-- `_discrimination_weights`. -/
def discriminationWeights (sqrt : ℚ → ℚ) (byAgent : List (String × List RuleVerdict)) :
    List (String × ℚ) :=
  (Grouping.group RuleVerdict.ruleId (byAgent.flatMap Prod.snd)).map fun group =>
    (group.1, ruleWeight sqrt byAgent group.2)

/-- The row of one agent. Every rule is in the library by then. -/
def agentMetrics (library : Library) (discriminating : Finset (String × ℕ × String))
    (weights : List (String × ℚ)) (agent : String) (eligible : List RuleVerdict) : AgentMetrics :=
  let weight (v : RuleVerdict) : ℚ := (weights.lookup v.ruleId).getD 0
  let binary := eligible.map RuleVerdict.z
  let filtered := (eligible.filter fun v => v.observationKey ∈ discriminating).map RuleVerdict.z
  let againstPrior := (eligible.filter fun v =>
    (library v.ruleId).any fun rule => rule.prior = .against).map RuleVerdict.z
  let numerator := (eligible.map fun v => weight v * v.z).sum
  let denominator := (eligible.map weight).sum
  { agentId := agent
    accuracy := rate binary
    filteredAccuracy := rate filtered
    discriminationWeightedAccuracy :=
      if 0 < denominator then some (numerator / denominator) else none
    againstPriorAccuracy := rate againstPrior
    eligible := binary.length
    filteredEligible := filtered.length
    againstPriorEligible := againstPrior.length }

def computeMetrics (sqrt : ℚ → ℚ) (verdicts : List RuleVerdict) (library : Library)
    (designGapRules : Finset String) : Except PyError CohortMetrics :=
  let unknown := ((verdicts.map RuleVerdict.ruleId).filter fun rule =>
    (library rule).isNone).dedup.insertionSort (· ≤ ·)
  if unknown ≠ [] then
    .error (⟨"ValueError", "HARNESS_IF_UNKNOWN_VERDICT_RULES:" ++ ",".intercalate unknown⟩)
  else
    let byAgent := eligibleByAgent verdicts designGapRules
    let discriminating := discriminatingKeys verdicts designGapRules
    let weights := discriminationWeights sqrt byAgent
    .ok
      { agents := ((byAgent.map Prod.fst).insertionSort (· ≤ ·)).map fun agent =>
          agentMetrics library discriminating weights agent (rowsOf byAgent agent)
        discriminationWeights := weights
        discriminatingObservations := discriminating
        excludedDesignGapRules := designGapRules }

/-! ## `common_support` -/

def commonSupport (verdicts : List RuleVerdict) (agents : List String) : List RuleVerdict :=
  let cohort := if agents = [] then (verdicts.map RuleVerdict.agentId).toFinset else agents.toFinset
  let byKey := Grouping.group RuleVerdict.observationKey
    (verdicts.filter fun v => v.agentId ∈ cohort ∧ v.eligible)
  let keys := (byKey.filter fun group =>
    (group.2.map RuleVerdict.agentId).toFinset = cohort).map Prod.fst
  verdicts.filter fun v => v.agentId ∈ cohort ∧ v.observationKey ∈ keys ∧ v.eligible

/-! ## The order of the verdicts -/

variable {l l' : List RuleVerdict} {excluded : Finset String} {library : Library}

theorem rate_perm {xs ys : List ℕ} (h : xs.Perm ys) : rate xs = rate ys := by
  have hnil : xs = [] ↔ ys = [] := ⟨fun hx => (hx ▸ h).nil_eq.symm, fun hy => (hy ▸ h).eq_nil⟩
  simp only [rate, hnil, h.sum_eq, h.length_eq]

/-- The correlation of pairs does not depend on their order. -/
theorem pearson_perm (sqrt : ℚ → ℚ) {pairs pairs' : List (ℚ × ℚ)} (h : pairs.Perm pairs') :
    pearson sqrt (pairs.map Prod.fst) (pairs.map Prod.snd) =
      pearson sqrt (pairs'.map Prod.fst) (pairs'.map Prod.snd) := by
  have hsum (f : ℚ × ℚ → ℚ) : (pairs.map f).sum = (pairs'.map f).sum := (h.map f).sum_eq
  simp only [pearson, List.length_map, h.length_eq, List.map_map, hsum, List.zipWith_map,
    List.zipWith_self]

theorem counted_perm (h : l'.Perm l) : (counted excluded l').Perm (counted excluded l) :=
  h.filter _

theorem rowsOf_eligibleByAgent (l : List RuleVerdict) (agent : String) :
    rowsOf (eligibleByAgent l excluded) agent =
      (counted excluded l).filter fun v => v.agentId = agent := by
  rw [rowsOf, eligibleByAgent, Grouping.lookup_group]
  split
  · rfl
  · next hagent =>
    refine (List.filter_eq_nil_iff.mpr fun v hv hv' => hagent ?_).symm
    exact of_decide_eq_true hv' ▸ List.mem_map_of_mem hv

theorem rowsOf_perm (h : l'.Perm l) (agent : String) :
    (rowsOf (eligibleByAgent l' excluded) agent).Perm
      (rowsOf (eligibleByAgent l excluded) agent) := by
  rw [rowsOf_eligibleByAgent, rowsOf_eligibleByAgent]
  exact (counted_perm h).filter _

theorem discriminatingKeys_perm (h : l'.Perm l) :
    discriminatingKeys l' excluded = discriminatingKeys l excluded := by
  have hkept : (counted excluded l').Perm (counted excluded l) := counted_perm h
  ext key
  simp only [discriminatingKeys, List.mem_toFinset]
  rw [Grouping.mem_keys_filter (p := fun members => 1 < (members.map RuleVerdict.z).toFinset.card),
    Grouping.mem_keys_filter (p := fun members => 1 < (members.map RuleVerdict.z).toFinset.card),
    (hkept.map _).mem_iff, List.toFinset_eq_of_perm _ _ ((hkept.filter _).map _)]

theorem ratePairs_perm (h : l'.Perm l) {rows rows' : List RuleVerdict} (hrows : rows'.Perm rows) :
    (ratePairs (eligibleByAgent l' excluded) rows').Perm
      (ratePairs (eligibleByAgent l excluded) rows) := by
  have hoverall : overall (eligibleByAgent l' excluded) = overall (eligibleByAgent l excluded) :=
    funext fun agent => rate_perm ((rowsOf_perm h agent).map _)
  have hpairs : ((Grouping.group RuleVerdict.agentId rows').map fun group =>
        (overall (eligibleByAgent l excluded) group.1).map fun rate =>
          ((group.2.map RuleVerdict.z).sum / (group.2.length : ℚ), rate)).Perm
      ((Grouping.group RuleVerdict.agentId rows).map fun group =>
        (overall (eligibleByAgent l excluded) group.1).map fun rate =>
          ((group.2.map RuleVerdict.z).sum / (group.2.length : ℚ), rate)) :=
    Grouping.map_group_perm hrows (fun agent members =>
      (overall (eligibleByAgent l excluded) agent).map fun rate =>
        ((members.map RuleVerdict.z).sum / (members.length : ℚ), rate))
      fun agent members members' hmembers => by
        rw [(hmembers.map RuleVerdict.z).sum_eq, hmembers.length_eq]
  unfold ratePairs
  rw [hoverall]
  simpa only [List.filterMap_map, Function.comp_def, id] using hpairs.filterMap id

theorem ruleWeight_perm (sqrt : ℚ → ℚ) (h : l'.Perm l) {rows rows' : List RuleVerdict}
    (hrows : rows'.Perm rows) : ruleWeight sqrt (eligibleByAgent l' excluded) rows' =
      ruleWeight sqrt (eligibleByAgent l excluded) rows := by
  unfold ruleWeight
  dsimp only
  rw [pearson_perm sqrt (ratePairs_perm h hrows)]

theorem lookup_discriminationWeights (sqrt : ℚ → ℚ) (byAgent : List (String × List RuleVerdict))
    (rule : String) : (discriminationWeights sqrt byAgent).lookup rule =
      if rule ∈ (byAgent.flatMap Prod.snd).map RuleVerdict.ruleId then
        some (ruleWeight sqrt byAgent
          ((byAgent.flatMap Prod.snd).filter fun v => v.ruleId = rule))
      else none := by
  refine (Grouping.lookup_map (ruleWeight sqrt byAgent) rule _).trans ?_
  rw [Grouping.lookup_group]
  split <;> rfl

theorem lookup_discriminationWeights_perm (sqrt : ℚ → ℚ) (h : l'.Perm l) (rule : String) :
    (discriminationWeights sqrt (eligibleByAgent l' excluded)).lookup rule =
      (discriminationWeights sqrt (eligibleByAgent l excluded)).lookup rule := by
  have hrows : ((eligibleByAgent l' excluded).flatMap Prod.snd).Perm
      ((eligibleByAgent l excluded).flatMap Prod.snd) :=
    (Grouping.flatMap_group_perm _).trans
      ((counted_perm h).trans (Grouping.flatMap_group_perm _).symm)
  rw [lookup_discriminationWeights, lookup_discriminationWeights,
    ruleWeight_perm sqrt h (hrows.filter _)]
  simp only [(hrows.map RuleVerdict.ruleId).mem_iff]

/-- A row of the metrics. -/
theorem agentMetrics_perm {discriminating : Finset (String × ℕ × String)}
    {weights weights' : List (String × ℚ)} (hweights : ∀ rule, weights'.lookup rule =
      weights.lookup rule) (agent : String) {rows rows' : List RuleVerdict}
    (hrows : rows'.Perm rows) :
    agentMetrics library discriminating weights' agent rows' =
      agentMetrics library discriminating weights agent rows := by
  have hrate (p : RuleVerdict → Bool) : rate ((rows'.filter p).map RuleVerdict.z) =
      rate ((rows.filter p).map RuleVerdict.z) := rate_perm ((hrows.filter p).map _)
  have hlength (p : RuleVerdict → Bool) : (rows'.filter p).length = (rows.filter p).length :=
    (hrows.filter p).length_eq
  have hsum (f : RuleVerdict → ℚ) : (rows'.map f).sum = (rows.map f).sum := (hrows.map f).sum_eq
  simp only [agentMetrics, hweights, hrate, hsum, List.length_map, hlength, hrows.length_eq,
    rate_perm (hrows.map RuleVerdict.z)]

theorem insertionSort_perm {xs ys : List String} (h : xs.Perm ys) :
    xs.insertionSort (· ≤ ·) = ys.insertionSort (· ≤ ·) :=
  List.Perm.eq_of_pairwise (fun _ _ _ _ => le_antisymm) (List.pairwise_insertionSort _ _)
    (List.pairwise_insertionSort _ _)
    ((List.perm_insertionSort _ _).trans (h.trans (List.perm_insertionSort _ _).symm))

/-- The scores of the agents, and what tells them apart. -/
def CohortMetrics.scores (metrics : CohortMetrics) :
    List AgentMetrics × Finset (String × ℕ × String) :=
  (metrics.agents, metrics.discriminatingObservations)

theorem computeMetrics_perm (sqrt : ℚ → ℚ) (h : l'.Perm l) :
    (computeMetrics sqrt l' library excluded).map CohortMetrics.scores =
      (computeMetrics sqrt l library excluded).map CohortMetrics.scores := by
  have hunknown := insertionSort_perm
    (((h.map RuleVerdict.ruleId).filter fun rule => (library rule).isNone).dedup)
  unfold computeMetrics
  simp only [hunknown]
  split
  · rfl
  · simp only [Except.map, CohortMetrics.scores, discriminatingKeys_perm h]
    have hagents : ((eligibleByAgent l' excluded).map Prod.fst).insertionSort (· ≤ ·) =
        ((eligibleByAgent l excluded).map Prod.fst).insertionSort (· ≤ ·) :=
      insertionSort_perm (Grouping.keys_group_perm (counted_perm h))
    rw [hagents]
    refine congrArg (fun rows => Except.ok (rows, discriminatingKeys l excluded))
      (List.map_congr_left fun agent _ => ?_)
    exact agentMetrics_perm (lookup_discriminationWeights_perm sqrt h) agent (rowsOf_perm h agent)

theorem mem_commonSupport_perm (h : l'.Perm l) (agents : List String) (v : RuleVerdict) :
    v ∈ commonSupport l' agents ↔ v ∈ commonSupport l agents := by
  have hcohort : (l'.map RuleVerdict.agentId).toFinset = (l.map RuleVerdict.agentId).toFinset :=
    List.toFinset_eq_of_perm _ _ (h.map _)
  unfold commonSupport
  simp only [hcohort]
  generalize (if agents = [] then (l.map RuleVerdict.agentId).toFinset else agents.toFinset) =
    cohort
  have hseen : (l'.filter fun v => v.agentId ∈ cohort ∧ v.eligible).Perm
      (l.filter fun v => v.agentId ∈ cohort ∧ v.eligible) := h.filter _
  have hkeys (key : String × ℕ × String) :
      key ∈ ((Grouping.group RuleVerdict.observationKey
        (l'.filter fun v => v.agentId ∈ cohort ∧ v.eligible)).filter fun group =>
          (group.2.map RuleVerdict.agentId).toFinset = cohort).map Prod.fst ↔
      key ∈ ((Grouping.group RuleVerdict.observationKey
        (l.filter fun v => v.agentId ∈ cohort ∧ v.eligible)).filter fun group =>
          (group.2.map RuleVerdict.agentId).toFinset = cohort).map Prod.fst := by
    rw [Grouping.mem_keys_filter (p := fun ms => (ms.map RuleVerdict.agentId).toFinset = cohort),
      Grouping.mem_keys_filter (p := fun ms => (ms.map RuleVerdict.agentId).toFinset = cohort),
      (hseen.map _).mem_iff, List.toFinset_eq_of_perm _ _ ((hseen.filter _).map _)]
  simp only [List.mem_filter, h.mem_iff, hkeys]

/-! ## The exclusions -/

variable {minAgents : ℤ} {threshold : ℚ} {rule : String}

/-- The agents with a verdict on the rule. -/
def agentsOn (l : List RuleVerdict) (rule : String) : Finset String :=
  ((l.filter fun v => v.ruleId = rule).map RuleVerdict.agentId).toFinset

/-- The agents whose last verdict on the rule misses its artifact. -/
def missesLast (l : List RuleVerdict) (rule : String) : Finset String :=
  (agentsOn l rule).filter fun agent => (((l.filter fun v => v.ruleId = rule).filter
    fun v => v.agentId = agent).getLast?).any missesArtifact

/-- The agents of which some verdict on the rule misses its artifact. -/
def missesSome (l : List RuleVerdict) (rule : String) : Finset String :=
  (agentsOn l rule).filter fun agent =>
    ∃ v ∈ l, v.ruleId = rule ∧ v.agentId = agent ∧ missesArtifact v = true

/-- The agents of which every verdict on the rule misses its artifact. -/
def missesAll (l : List RuleVerdict) (rule : String) : Finset String :=
  (agentsOn l rule).filter fun agent =>
    ∀ v ∈ l, v.ruleId = rule → v.agentId = agent → missesArtifact v = true

/-- On each rule with enough agents, the threshold is reached by those that always miss the
artifact or not even by those that ever do. -/
def GapsSettled (l : List RuleVerdict) (minAgents : ℤ) (threshold : ℚ) : Prop :=
  ∀ rule, minAgents ≤ (agentsOn l rule).card →
    (threshold ≤ (missesSome l rule).card / ((agentsOn l rule).card : ℚ) ↔
      threshold ≤ (missesAll l rule).card / ((agentsOn l rule).card : ℚ))

theorem countP_lastByAgent (l : List RuleVerdict) (p : RuleVerdict → Bool) :
    (lastByAgent l).countP p = ((l.map RuleVerdict.agentId).toFinset.filter fun agent =>
      ((l.filter fun v => v.agentId = agent).getLast?).any p).card := by
  have h : Grouping.Groups RuleVerdict.agentId l (Grouping.group RuleVerdict.agentId l) :=
    Grouping.groups_group l
  have hkeys : ((Grouping.group RuleVerdict.agentId l).map Prod.fst).toFinset =
      (l.map RuleVerdict.agentId).toFinset := by
    ext agent
    simp only [List.mem_toFinset, h.mem_keys]
  rw [lastByAgent, List.countP_filterMap, ← hkeys, ← List.toFinset_filter,
    List.toFinset_card_of_nodup (h.nodup.filter _), ← List.countP_eq_length_filter, List.countP_map]
  refine List.countP_congr fun group hgroup => ?_
  simp only [Function.comp_def, ← h.eq_filter group hgroup]
  cases group.2.getLast? <;> simp

theorem length_lastByAgent (l : List RuleVerdict) :
    (lastByAgent l).length = (l.map RuleVerdict.agentId).toFinset.card := by
  have hlast : ∀ agent ∈ (l.map RuleVerdict.agentId).toFinset,
      ((l.filter fun v => v.agentId = agent).getLast?).any (fun _ => true) = true := by
    intro agent hagent
    obtain ⟨v, hv, rfl⟩ := List.mem_map.mp (List.mem_toFinset.mp hagent)
    have hne : (l.filter fun w => w.agentId = v.agentId) ≠ [] :=
      List.ne_nil_of_mem (List.mem_filter.mpr ⟨hv, by simp⟩)
    rw [List.getLast?_eq_some_getLast hne]
    rfl
  have hcount := countP_lastByAgent l fun _ => true
  rwa [Finset.filter_true_of_mem hlast, List.countP_true] at hcount

theorem mem_cascadeFairnessExclusions : rule ∈ cascadeFairnessExclusions l minAgents threshold ↔
    rule ∈ l.map RuleVerdict.ruleId ∧ minAgents ≤ (agentsOn l rule).card ∧
      threshold ≤ (missesLast l rule).card / ((agentsOn l rule).card : ℚ) := by
  unfold cascadeFairnessExclusions
  rw [List.mem_toFinset, Grouping.mem_keys_filter (p := fun ms =>
    ¬((lastByAgent ms).length : ℤ) < minAgents ∧
      threshold ≤ ((lastByAgent ms).countP missesArtifact : ℚ) / (lastByAgent ms).length)]
  rw [length_lastByAgent, countP_lastByAgent, not_lt]
  rfl

theorem missesAll_subset : missesAll l rule ⊆ missesLast l rule := by
  intro agent hagent
  obtain ⟨hon, hall⟩ := Finset.mem_filter.mp hagent
  obtain ⟨v, hv, rfl⟩ := List.mem_map.mp (List.mem_toFinset.mp hon)
  have hne : ((l.filter fun v => v.ruleId = rule).filter fun w => w.agentId = v.agentId) ≠ [] :=
    List.ne_nil_of_mem (List.mem_filter.mpr ⟨hv, by simp⟩)
  refine Finset.mem_filter.mpr ⟨hon, ?_⟩
  rw [List.getLast?_eq_some_getLast hne]
  have hlast := List.getLast_mem hne
  simp only [List.mem_filter, decide_eq_true_eq] at hlast
  exact hall _ hlast.1.1 hlast.1.2 hlast.2

theorem missesLast_subset : missesLast l rule ⊆ missesSome l rule := by
  intro agent hagent
  obtain ⟨hon, hlast⟩ := Finset.mem_filter.mp hagent
  cases hv : ((l.filter fun v => v.ruleId = rule).filter fun v => v.agentId = agent).getLast? with
  | none => exact absurd (hv ▸ hlast) (by simp)
  | some v =>
    have hmem := List.mem_of_getLast? hv
    simp only [List.mem_filter, decide_eq_true_eq] at hmem
    rw [hv] at hlast
    exact Finset.mem_filter.mpr ⟨hon, v, hmem.1.1, hmem.1.2, hmem.2, hlast⟩

theorem agentsOn_perm (h : l'.Perm l) (rule : String) : agentsOn l' rule = agentsOn l rule :=
  List.toFinset_eq_of_perm _ _ ((h.filter _).map _)

theorem missesSome_perm (h : l'.Perm l) (rule : String) :
    missesSome l' rule = missesSome l rule := by
  simp only [missesSome, agentsOn_perm h, h.mem_iff]

theorem missesAll_perm (h : l'.Perm l) (rule : String) : missesAll l' rule = missesAll l rule := by
  simp only [missesAll, agentsOn_perm h, h.mem_iff]

/-- The last of a list, of which `p` holds on the part `ys` only. -/
theorem any_getLast?_append {p : RuleVerdict → Bool} {xs ys : List RuleVerdict}
    (hxs : ∀ v ∈ xs, p v = false) (hys : ∀ v ∈ ys, p v = true) :
    (((xs ++ ys).getLast?).any p = true ↔ ys ≠ []) ∧
      (((ys ++ xs).getLast?).any p = true ↔ ys ≠ [] ∧ xs = []) := by
  have hlast : ∀ {zs : List RuleVerdict} (hne : zs ≠ []), zs.getLast?.any p = p (zs.getLast hne) :=
    fun hne => by rw [List.getLast?_eq_some_getLast hne]; rfl
  rcases eq_or_ne xs [] with rfl | hx
  · rcases eq_or_ne ys [] with rfl | hy
    · simp
    · simp [hlast hy, hy, hys _ (List.getLast_mem hy)]
  · rcases eq_or_ne ys [] with rfl | hy
    · simp [hlast hx, hxs _ (List.getLast_mem hx)]
    · have hne : xs ++ ys ≠ [] := by simp [hx]
      have hne' : ys ++ xs ≠ [] := by simp [hx]
      rw [hlast hne, hlast hne', List.getLast_append_right hy, List.getLast_append_right hx]
      simp [hx, hy, hxs _ (List.getLast_mem hx), hys _ (List.getLast_mem hy)]

theorem ofAgent_eq_nil {p : RuleVerdict → Bool} {agent : String} :
    (((l.filter p).filter fun v => v.ruleId = rule).filter fun v => v.agentId = agent) = [] ↔
      ∀ v ∈ l, v.ruleId = rule → v.agentId = agent → p v = false := by
  simp only [List.filter_eq_nil_iff, List.mem_filter, decide_eq_true_eq, Bool.eq_false_iff]
  exact ⟨fun h v hv hrule hagent hp => h v ⟨⟨hv, hp⟩, hrule⟩ hagent,
    fun h v hv hagent => h v hv.1.1 hv.2 hagent hv.1.2⟩

theorem perm_split (l : List RuleVerdict) :
    ((l.filter fun v => !missesArtifact v) ++ l.filter missesArtifact).Perm l :=
  List.perm_append_comm.trans (List.filter_append_perm missesArtifact l)

/-- With the verdicts that miss their artifact at the end, they are the last of each agent that has
one. -/
theorem missesLast_missing_last (rule : String) :
    missesLast ((l.filter fun v => !missesArtifact v) ++ l.filter missesArtifact) rule =
      missesSome l rule := by
  ext agent
  simp only [missesLast, missesSome, Finset.mem_filter, agentsOn_perm (perm_split l),
    List.filter_append]
  refine and_congr_right fun _ => ?_
  rw [(any_getLast?_append (p := missesArtifact) (by grind) (by grind)).1, Ne, ofAgent_eq_nil]
  push Not
  simp only [Bool.not_eq_false, ← exists_prop]

/-- With the verdicts that miss their artifact at the start, another verdict of the agent comes
after them. -/
theorem missesLast_missing_first (rule : String) :
    missesLast (l.filter missesArtifact ++ l.filter fun v => !missesArtifact v) rule =
      missesAll l rule := by
  ext agent
  simp only [missesLast, missesAll, Finset.mem_filter,
    agentsOn_perm (List.filter_append_perm missesArtifact l), List.filter_append]
  refine and_congr_right fun hon => ?_
  obtain ⟨w, hw, rfl⟩ := List.mem_map.mp (List.mem_toFinset.mp hon)
  obtain ⟨hw, hrule⟩ := List.mem_filter.mp hw
  rw [(any_getLast?_append (p := missesArtifact) (by grind) (by grind)).2, Ne, ofAgent_eq_nil,
    ofAgent_eq_nil]
  simp only [Bool.not_eq_false']
  exact ⟨fun h => h.2, fun h => ⟨fun hnone => by
    simpa [hnone w hw (of_decide_eq_true hrule) rfl] using h w hw (of_decide_eq_true hrule) rfl, h⟩⟩

/-- Reaching the threshold, over how many agents miss the artifact. -/
theorem le_share_of_subset {agents some' : Finset String} {n : ℕ} (h : agents ⊆ some')
    (hle : threshold ≤ agents.card / (n : ℚ)) : threshold ≤ some'.card / (n : ℚ) :=
  hle.trans (div_le_div_of_nonneg_right (by exact_mod_cast Finset.card_le_card h) (Nat.cast_nonneg n))

/-- The exclusions are the same in every order only where the order of an agent's verdicts cannot
matter to them. -/
theorem exclusions_order_free_iff :
    (∀ l' : List RuleVerdict, l'.Perm l → cascadeFairnessExclusions l' minAgents threshold =
      cascadeFairnessExclusions l minAgents threshold) ↔ GapsSettled l minAgents threshold := by
  constructor
  · intro hfree rule hagents
    have hon : rule ∈ l.map RuleVerdict.ruleId ∨ (agentsOn l rule).card = 0 := by
      refine or_iff_not_imp_left.mpr fun hrule => Finset.card_eq_zero.mpr ?_
      refine Finset.eq_empty_iff_forall_notMem.mpr fun agent hagent => hrule ?_
      obtain ⟨v, hv, rfl⟩ := List.mem_map.mp (List.mem_toFinset.mp hagent)
      obtain ⟨hv, hkey⟩ := List.mem_filter.mp hv
      exact List.mem_map.mpr ⟨v, hv, of_decide_eq_true hkey⟩
    rcases hon with hon | hnone
    · have hperm := perm_split l
      have hperm' := List.filter_append_perm missesArtifact l
      have hsome : rule ∈ cascadeFairnessExclusions
          ((l.filter fun v => !missesArtifact v) ++ l.filter missesArtifact) minAgents threshold ↔
            threshold ≤ (missesSome l rule).card / ((agentsOn l rule).card : ℚ) := by
        rw [mem_cascadeFairnessExclusions, missesLast_missing_last, agentsOn_perm hperm,
          (hperm.map _).mem_iff]
        exact ⟨fun h => h.2.2, fun h => ⟨hon, hagents, h⟩⟩
      have hall : rule ∈ cascadeFairnessExclusions
          (l.filter missesArtifact ++ l.filter fun v => !missesArtifact v) minAgents threshold ↔
            threshold ≤ (missesAll l rule).card / ((agentsOn l rule).card : ℚ) := by
        rw [mem_cascadeFairnessExclusions, missesLast_missing_first, agentsOn_perm hperm',
          (hperm'.map _).mem_iff]
        exact ⟨fun h => h.2.2, fun h => ⟨hon, hagents, h⟩⟩
      rw [← hsome, ← hall, hfree _ hperm, hfree _ hperm']
    · simp [hnone]
  · intro hsettled l' h
    have hmem (l' : List RuleVerdict) (h : l'.Perm l) (rule : String) :
        rule ∈ cascadeFairnessExclusions l' minAgents threshold ↔ rule ∈ l.map RuleVerdict.ruleId ∧
          minAgents ≤ (agentsOn l rule).card ∧
            threshold ≤ (missesAll l rule).card / ((agentsOn l rule).card : ℚ) := by
      rw [mem_cascadeFairnessExclusions, agentsOn_perm h, (h.map _).mem_iff]
      refine and_congr_right fun _ => and_congr_right fun hagents => ⟨fun hlast => ?_, fun hall => ?_⟩
      · refine (hsettled rule hagents).mp ?_
        rw [← missesSome_perm h]
        exact le_share_of_subset missesLast_subset hlast
      · rw [← missesAll_perm h] at hall
        exact le_share_of_subset missesAll_subset hall
    ext rule
    rw [hmem l' h, hmem l (List.Perm.refl l)]

end HarnessIf

end GymAct
