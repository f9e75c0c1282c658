import GymAct.Fallible
import GymAct.Grouping
import GymAct.LargestRemainder
import GymAct.Undominated
import GymAct.Value
import Mathlib.Algebra.BigOperators.Ring.List
import Mathlib.Algebra.Order.Field.Basic
import Mathlib.Data.String.Basic

/-!
# CMCA allocation

`explore_sequential_acquisition/cmca.py` over `budget.py`, `frontier.py` and `sensor.py` :
`allocate_cmca` divides a budget among the candidates of the Pareto frontier, by shares that mix
the weight in the whole frontier with the weight in the branch, and by largest remainders where the
budget is an integer.

The shares of each scale sum to one, so that the plan is always closed, and all that is read of the
frontier is a sum over it or a table by its digests : `allocateCmca_closes`.
-/

set_option linter.unusedSectionVars false

namespace GymAct

namespace Cmca

open DistinctKeys Grouping LargestRemainder

/-! ## Candidates -/

@[ext]
structure Budget where
  cost : ℚ
  latencyMs : ℤ
  samples : ℤ
  cost_nonneg : 0 ≤ cost
  latencyMs_nonneg : 0 ≤ latencyMs
  samples_nonneg : 0 ≤ samples

instance : DecidableEq Budget := fun _ _ =>
  decidable_of_iff _ Budget.ext_iff.symm

def Budget.admits (budget : Budget) (cost : ℚ) (latencyMs samples : ℤ) : Bool :=
  cost ≤ budget.cost ∧ latencyMs ≤ budget.latencyMs ∧ samples ≤ budget.samples

@[ext]
structure SensorCapability where
  name : String
  family : String
  domain : String
  generation : ℕ
  digest : String
  cost : ℚ
  latencyMs : ℤ
  named : name ≠ "" ∧ family ≠ "" ∧ domain ≠ ""
  digest_hex : digest.length = 64 ∧ ∀ c ∈ digest.toList, c ∈ "0123456789abcdef".toList
  cost_nonneg : 0 ≤ cost
  latencyMs_nonneg : 0 ≤ latencyMs

instance : DecidableEq SensorCapability := fun _ _ =>
  decidable_of_iff _ SensorCapability.ext_iff.symm

def SensorCapability.independenceKey (sensor : SensorCapability) : String × String :=
  (sensor.family, sensor.domain)

structure CandidateScore where
  sensor : String
  information : ℚ
  cost : ℚ
  uncertainty : ℚ
  regret : ℚ
  diversity : ℚ
  deriving DecidableEq, Repr

structure ObjectiveVector where
  sensor : String
  information : ℚ
  diversity : ℚ
  cost : ℚ
  latency : ℤ
  deriving DecidableEq, Repr

def dominates (a b : ObjectiveVector) : Bool :=
  (b.information ≤ a.information ∧ b.diversity ≤ a.diversity ∧ a.cost ≤ b.cost ∧
    a.latency ≤ b.latency) ∧
  (b.information < a.information ∨ b.diversity < a.diversity ∨ a.cost < b.cost ∨
    a.latency < b.latency)

def paretoFrontier (items : List ObjectiveVector) : List ObjectiveVector :=
  items.filter fun item => !(items.filter (· ≠ item)).any fun other => dominates other item

/-! ## Plans -/

/-- An allocation, before it is checked. -/
structure AllocationRecord where
  sensorDigest : String
  sensorName : String
  independenceKey : String × String
  onFrontier : Bool
  continuationShare : ℚ
  allocatedCost : ℚ
  allocatedLatencyMs : ℤ
  allocatedSamples : ℤ
  reason : String
  deriving DecidableEq, Repr

structure CMCAAllocation extends AllocationRecord where
  share_mem : 0 ≤ continuationShare ∧ continuationShare ≤ 1
  allocated_nonneg : 0 ≤ allocatedCost ∧ 0 ≤ allocatedLatencyMs ∧ 0 ≤ allocatedSamples
  deriving DecidableEq

/-- `CMCAAllocation.__post_init__`. -/
def AllocationRecord.check (r : AllocationRecord) : Except PyError CMCAAllocation :=
  if hshare : 0 ≤ r.continuationShare ∧ r.continuationShare ≤ 1 then
    if hallocated : 0 ≤ r.allocatedCost ∧ 0 ≤ r.allocatedLatencyMs ∧ 0 ≤ r.allocatedSamples then
      .ok ⟨r, hshare, hallocated⟩
    else .error ⟨"ValueError", "REFUSED_INVALID_CMCA_ALLOCATION"⟩
  else .error ⟨"ValueError", "REFUSED_INVALID_CMCA_SHARE"⟩

section Totals

variable (allocations : List CMCAAllocation)

def allocatedShare : ℚ := (allocations.map fun a => a.continuationShare).sum

def allocatedCost : ℚ := (allocations.map fun a => a.allocatedCost).sum

def allocatedLatencyMs : ℤ := (allocations.map fun a => a.allocatedLatencyMs).sum

def allocatedSamples : ℤ := (allocations.map fun a => a.allocatedSamples).sum

end Totals

structure CMCAPlan where
  sourceBudget : Budget
  allocations : List CMCAAllocation
  digests_nodup : (allocations.map fun a => a.sensorDigest).Nodup
  share_closed : allocatedShare allocations = 1
  cost_le : allocatedCost allocations ≤ sourceBudget.cost
  latencyMs_le : allocatedLatencyMs allocations ≤ sourceBudget.latencyMs
  samples_le : allocatedSamples allocations ≤ sourceBudget.samples
  deriving DecidableEq

/-- `CMCAPlan.__post_init__`. -/
def CMCAPlan.build (sourceBudget : Budget) (allocations : List CMCAAllocation) :
    Except PyError CMCAPlan :=
  if hnodup : (allocations.map fun a => a.sensorDigest).Nodup then
    if hclosed : allocatedShare allocations = 1 then
      if hcost : allocatedCost allocations ≤ sourceBudget.cost then
        if hlatency : allocatedLatencyMs allocations ≤ sourceBudget.latencyMs then
          if hsamples : allocatedSamples allocations ≤ sourceBudget.samples then
            .ok ⟨sourceBudget, allocations, hnodup, hclosed, hcost, hlatency, hsamples⟩
          else .error ⟨"ValueError", "REFUSED_CMCA_SAMPLES_EXCEEDED"⟩
        else .error ⟨"ValueError", "REFUSED_CMCA_LATENCY_EXCEEDED"⟩
      else .error ⟨"ValueError", "REFUSED_CMCA_COST_EXCEEDED"⟩
    else .error ⟨"ValueError", "REFUSED_CMCA_SHARE_NOT_CLOSED"⟩
  else .error ⟨"ValueError", "REFUSED_DUPLICATE_CMCA_SENSOR"⟩

/-! ## `allocate_cmca` -/

/-- `_continuation_weight`. -/
def continuationWeight (score : CandidateScore) : ℚ :=
  1 + max score.information 0 + max score.diversity 0 + max score.uncertainty 0 +
    1 / (1 + max score.regret 0)

/-- A candidate with its score. -/
abbrev Scored := SensorCapability × CandidateScore

section Scored

variable (scored : Scored)

def digest : String := scored.1.digest

def branch : String × String := scored.1.independenceKey

def weight : ℚ := continuationWeight scored.2

def objective : ObjectiveVector where
  sensor := scored.1.digest
  information := scored.2.information
  diversity := scored.2.diversity
  cost := scored.1.cost
  latency := scored.1.latencyMs

end Scored

/-- `_apportion_integer`. -/
def apportionInteger (total : ℤ) (shares : List (String × ℚ)) :
    Except PyError (List (String × ℤ)) :=
  if total < 0 then .error ⟨"ValueError", "REFUSED_INVALID_CMCA_INTEGER_BUDGET"⟩
  else if shares = [] then .ok []
  else .ok (apportion total shares)

/-- `sorted(candidates, key=lambda item: item.digest)`. -/
def sortedByDigest (candidates : List SensorCapability) : List SensorCapability :=
  candidates.insertionSort fun a b => a.digest ≤ b.digest

section Allocate

variable (scores : String → Option CandidateScore) (budget : Budget)

/-- What is lawful of a candidate : its score, or why it has none. -/
def lawfulScore (candidate : SensorCapability) : Except String CandidateScore :=
  match scores candidate.digest with
  | none => .error "REFUSED_MISSING_SCORE"
  | some score =>
    if budget.admits candidate.cost candidate.latencyMs 1 then .ok score
    else .error "REFUSED_BUDGET_INADMISSIBLE"

def lawful (candidates : List SensorCapability) : List Scored :=
  candidates.filterMap fun candidate =>
    match lawfulScore scores budget candidate with
    | .ok score => some (candidate, score)
    | .error _ => none

/-- `frontier_candidates`. -/
def frontierOf (lawful : List Scored) : List Scored :=
  let frontierDigests := (paretoFrontier (lawful.map objective)).map fun item => item.sensor
  lawful.filter fun scored => digest scored ∈ frontierDigests

/-- `group_weights`. -/
def groupWeights (frontier : List Scored) : List ((String × String) × ℚ) :=
  (group branch frontier).map fun members => (members.1, (members.2.map weight).sum)

/-- The share of a candidate of the frontier. -/
def shareOf (frontier : List Scored) (scored : Scored) : ℚ :=
  let globalShare := weight scored / (frontier.map weight).sum
  let localShare := 1 / (groupWeights frontier).length * weight scored /
    ((groupWeights frontier).lookup (branch scored)).getD 0
  (globalShare + localShare) / 2

def sharesOf (frontier : List Scored) : List (String × ℚ) :=
  frontier.map fun scored => (digest scored, shareOf frontier scored)

/-- The allocation of a candidate. The keys of all three tables are the digests of the frontier. -/
def allocationOf (shares : List (String × ℚ)) (latency samples : List (String × ℤ))
    (candidate : SensorCapability) : AllocationRecord :=
  match shares.lookup candidate.digest with
  | some share =>
    { sensorDigest := candidate.digest
      sensorName := candidate.name
      independenceKey := candidate.independenceKey
      onFrontier := true
      continuationShare := share
      allocatedCost := budget.cost * share
      allocatedLatencyMs := (latency.lookup candidate.digest).getD 0
      allocatedSamples := (samples.lookup candidate.digest).getD 0
      reason := "ALLOCATED" }
  | none =>
    { sensorDigest := candidate.digest
      sensorName := candidate.name
      independenceKey := candidate.independenceKey
      onFrontier := false
      continuationShare := 0
      allocatedCost := 0
      allocatedLatencyMs := 0
      allocatedSamples := 0
      reason :=
        match lawfulScore scores budget candidate with
        | .ok _ => "DOMINATED"
        | .error reason => reason }

def allocateCmca (candidates : List SensorCapability) : Except PyError CMCAPlan :=
  if candidates = [] then .error ⟨"ValueError", "REFUSED_NO_CMCA_CANDIDATES"⟩
  else if ¬(candidates.map fun c => c.digest).Nodup then
    .error ⟨"ValueError", "REFUSED_DUPLICATE_CMCA_SENSOR"⟩
  else if lawful scores budget candidates = [] then
    .error ⟨"ValueError", "REFUSED_NO_LAWFUL_CMCA_FRONTIER"⟩
  else
    let frontier := frontierOf (lawful scores budget candidates)
    if frontier = [] then .error ⟨"ValueError", "REFUSED_EMPTY_CMCA_FRONTIER"⟩
    else
      let shares := sharesOf frontier
      if (shares.map Prod.snd).sum ≠ 1 then
        .error ⟨"ValueError", "REFUSED_CMCA_SHARE_NOT_CLOSED"⟩
      else do
        let latency ← apportionInteger budget.latencyMs shares
        let samples ← apportionInteger budget.samples shares
        let allocations ← (sortedByDigest candidates).mapM
          fun candidate => (allocationOf scores budget shares latency samples candidate).check
        CMCAPlan.build budget allocations

end Allocate

/-! ## The frontier -/

theorem dominates_iff {a b : ObjectiveVector} : dominates a b = true ↔
    (b.information ≤ a.information ∧ b.diversity ≤ a.diversity ∧ a.cost ≤ b.cost ∧
      a.latency ≤ b.latency) ∧
    (b.information < a.information ∨ b.diversity < a.diversity ∨ a.cost < b.cost ∨
      a.latency < b.latency) := by
  simp [dominates]

instance : IsStrictOrder ObjectiveVector fun a b => dominates a b = true where
  irrefl a h := by
    obtain ⟨-, hbetter⟩ := dominates_iff.mp h
    simp at hbetter
  trans a b c hab hbc := by
    obtain ⟨⟨hinfo, hdiv, hcost, hlat⟩, hbetter⟩ := dominates_iff.mp hab
    obtain ⟨⟨hinfo', hdiv', hcost', hlat'⟩, -⟩ := dominates_iff.mp hbc
    refine dominates_iff.mpr ⟨⟨hinfo'.trans hinfo, hdiv'.trans hdiv, hcost.trans hcost',
      hlat.trans hlat'⟩, ?_⟩
    rcases hbetter with hi | hd | hc | hl
    · exact Or.inl (hinfo'.trans_lt hi)
    · exact Or.inr (Or.inl (hdiv'.trans_lt hd))
    · exact Or.inr (Or.inr (Or.inl (hc.trans_le hcost')))
    · exact Or.inr (Or.inr (Or.inr (hl.trans_le hlat')))

theorem paretoFrontier_eq (items : List ObjectiveVector) :
    paretoFrontier items = Undominated.undominated (fun a b => dominates a b = true) items := by
  refine List.filter_congr fun item _ => ?_
  have hself : ¬dominates item item = true := irrefl_of (fun a b => dominates a b = true) item
  rw [Bool.eq_iff_iff, decide_eq_true_eq, Bool.not_eq_true', Bool.eq_false_iff, Ne,
    List.any_eq_true]
  refine not_congr (exists_congr fun other => ?_)
  rw [List.mem_filter, decide_eq_true_eq]
  exact ⟨fun h => ⟨h.1.1, h.2⟩, fun h => ⟨⟨h.1, fun heq => hself (heq ▸ h.2)⟩, h.2⟩⟩

variable {scores : String → Option CandidateScore} {budget : Budget}
  {candidates candidates' : List SensorCapability} {l l' frontier frontier' : List Scored}

theorem mem_frontierOf {scored : Scored} : scored ∈ frontierOf l ↔ scored ∈ l ∧ ∃ other ∈ l,
    digest other = digest scored ∧ ∀ better ∈ l, ¬dominates (objective better) (objective other) = true := by
  simp only [frontierOf, List.mem_filter, decide_eq_true_eq, paretoFrontier_eq, List.mem_map,
    Undominated.mem_undominated]
  refine and_congr_right fun _ => ?_
  constructor
  · rintro ⟨_, ⟨⟨other, hother, rfl⟩, hbest⟩, hdigest⟩
    exact ⟨other, hother, hdigest, fun better hbetter => hbest _ ⟨better, hbetter, rfl⟩⟩
  · rintro ⟨other, hother, hdigest, hbest⟩
    refine ⟨_, ⟨⟨other, hother, rfl⟩, ?_⟩, hdigest⟩
    rintro _ ⟨better, hbetter, rfl⟩
    exact hbest better hbetter

theorem frontierOf_ne_nil (h : l ≠ []) : frontierOf l ≠ [] := by
  have hne : Undominated.undominated (fun a b => dominates a b = true) (l.map objective) ≠ [] :=
    Undominated.undominated_ne_nil (by simpa using h)
  obtain ⟨item, hitem⟩ := List.exists_mem_of_ne_nil _ hne
  obtain ⟨hmem, hbest⟩ := Undominated.mem_undominated.mp hitem
  obtain ⟨scored, hscored, rfl⟩ := List.mem_map.mp hmem
  exact List.ne_nil_of_mem (mem_frontierOf.mpr ⟨hscored, scored, hscored, rfl,
    fun better hbetter => hbest _ (List.mem_map_of_mem hbetter)⟩)

theorem frontierOf_perm (h : l'.Perm l) : (frontierOf l').Perm (frontierOf l) := by
  have hdigests (item : String) : item ∈ ((paretoFrontier (l'.map objective)).map fun i => i.sensor) ↔
      item ∈ (paretoFrontier (l.map objective)).map fun i => i.sensor := by
    rw [paretoFrontier_eq, paretoFrontier_eq]
    exact ((Undominated.undominated_perm (h.map objective)).map _).mem_iff
  unfold frontierOf
  simp only [hdigests]
  exact h.filter _

theorem map_fst_lawful (candidates : List SensorCapability) :
    (lawful scores budget candidates).map Prod.fst =
      candidates.filter fun c => (lawfulScore scores budget c).isOk := by
  induction candidates with
  | nil => rfl
  | cons c candidates ih =>
    unfold lawful at ih ⊢
    cases hscore : lawfulScore scores budget c with
    | error reason =>
      rw [List.filterMap_cons_none (by rw [hscore]), List.filter_cons_of_neg (by rw [hscore]; nofun), ih]
    | ok score =>
      rw [List.filterMap_cons_some (b := (c, score)) (by rw [hscore]), List.map_cons, ih,
        List.filter_cons_of_pos (by rw [hscore]; rfl)]

/-- The digests of the frontier are among those of the candidates, once each. -/
theorem digests_sublist (candidates : List SensorCapability) :
    ((frontierOf (lawful scores budget candidates)).map digest).Sublist
      (candidates.map fun c => c.digest) := by
  have hdigest : digest = (fun c : SensorCapability => c.digest) ∘ Prod.fst := rfl
  refine (List.filter_sublist.map digest).trans ?_
  rw [hdigest, ← List.map_map, map_fst_lawful]
  exact List.filter_sublist.map _

/-! ## Shares -/

theorem weight_pos (scored : Scored) : 0 < weight scored := by
  have hinfo := le_max_right scored.2.information 0
  have hdiv := le_max_right scored.2.diversity 0
  have hunc := le_max_right scored.2.uncertainty 0
  have hregret : 0 < 1 / (1 + max scored.2.regret 0) :=
    div_pos one_pos (by linarith [le_max_right scored.2.regret 0])
  unfold weight continuationWeight
  linarith

theorem sum_weight_pos (h : l ≠ []) : 0 < (l.map weight).sum := by
  obtain ⟨scored, l, rfl⟩ := List.exists_cons_of_ne_nil h
  rw [List.map_cons, List.sum_cons]
  have hrest : 0 ≤ (l.map weight).sum := List.sum_nonneg fun value hvalue => by
    obtain ⟨other, -, rfl⟩ := List.mem_map.mp hvalue
    exact (weight_pos other).le
  linarith [weight_pos scored]

theorem groupWeights_perm (h : frontier'.Perm frontier) :
    (groupWeights frontier').Perm (groupWeights frontier) :=
  map_group_perm h (fun key members => (key, (members.map weight).sum))
    fun key members members' hmembers => by rw [(hmembers.map weight).sum_eq]

theorem keys_groupWeights (frontier : List Scored) :
    (groupWeights frontier).map Prod.fst = (group branch frontier).map Prod.fst := by
  simp [groupWeights, Function.comp_def]

theorem nodup_groupWeights (frontier : List Scored) :
    ((groupWeights frontier).map Prod.fst).Nodup := by
  rw [keys_groupWeights]
  exact (groups_group frontier).nodup

/-- The weight of a branch. -/
theorem lookup_groupWeights {members : (String × String) × List Scored}
    (h : members ∈ group branch frontier) {scored : Scored} (hscored : scored ∈ members.2) :
    (groupWeights frontier).lookup (branch scored) = some (members.2.map weight).sum := by
  have hkey : branch scored = members.1 := by
    rw [(groups_group frontier).eq_filter members h] at hscored
    exact of_decide_eq_true (List.mem_filter.mp hscored).2
  rw [hkey]
  exact lookup_of_mem (nodup_groupWeights frontier) (List.mem_map_of_mem (f := fun members :
    (String × String) × List Scored => (members.1, (members.2.map weight).sum)) h)

theorem shareOf_perm (h : frontier'.Perm frontier) : shareOf frontier' = shareOf frontier := by
  funext scored
  have hgroups := groupWeights_perm h
  simp only [shareOf, (h.map weight).sum_eq, hgroups.length_eq,
    lookup_perm (nodup_groupWeights frontier') hgroups]

theorem sharesOf_perm (h : frontier'.Perm frontier) :
    (sharesOf frontier').Perm (sharesOf frontier) := by
  rw [sharesOf, shareOf_perm h]
  exact h.map _

/-- The share of the branch, of the whole. -/
def localShare (frontier : List Scored) (scored : Scored) : ℚ :=
  1 / (groupWeights frontier).length * weight scored /
    ((groupWeights frontier).lookup (branch scored)).getD 0

theorem localShare_pos {scored : Scored} (h : scored ∈ frontier) :
    0 < localShare frontier scored := by
  have hgroup : (branch scored, frontier.filter fun other => branch other = branch scored) ∈
      group branch frontier := mem_group_of_mem h
  have hscored : scored ∈ frontier.filter fun other => branch other = branch scored :=
    List.mem_filter.mpr ⟨h, by simp⟩
  have hlength : 0 < ((groupWeights frontier).length : ℚ) := by
    have hne : 0 < (groupWeights frontier).length := by
      rw [groupWeights, List.length_map]
      exact List.length_pos_of_mem hgroup
    exact_mod_cast hne
  rw [localShare, lookup_groupWeights hgroup hscored]
  exact div_pos (mul_pos (div_pos one_pos hlength) (weight_pos scored))
    (sum_weight_pos (List.ne_nil_of_mem hscored))

/-- In each branch, the local shares sum to that of a branch. -/
theorem sum_localShare (h : frontier ≠ []) : (frontier.map (localShare frontier)).sum = 1 := by
  have hbranch : ∀ members ∈ group branch frontier, (members.2.map (localShare frontier)).sum =
      1 / (group branch frontier).length := by
    intro members hmembers
    have hne := sum_weight_pos (members_ne_nil hmembers)
    have hshare : ∀ scored ∈ members.2, localShare frontier scored =
        weight scored * (1 / (group branch frontier).length / (members.2.map weight).sum) := by
      intro scored hscored
      rw [localShare, lookup_groupWeights hmembers hscored, groupWeights, List.length_map]
      simp only [Option.getD_some]
      ring
    rw [List.map_congr_left hshare, List.sum_map_mul_right, mul_div_assoc']
    exact mul_div_cancel_left₀ _ hne.ne'
  have hflat : ∀ groups : List ((String × String) × List Scored),
      (∀ members ∈ groups, (members.2.map (localShare frontier)).sum =
        1 / (group branch frontier).length) →
      ((groups.flatMap Prod.snd).map (localShare frontier)).sum =
        groups.length * (1 / (group branch frontier).length) := by
    intro groups hgroups
    induction groups with
    | nil => simp
    | cons members groups ih =>
      rw [List.flatMap_cons, List.map_append, List.sum_append, hgroups members List.mem_cons_self,
        ih fun members hmembers => hgroups members (List.mem_cons_of_mem _ hmembers)]
      push_cast [List.length_cons]
      ring
  have hlength : ((group branch frontier).length : ℚ) ≠ 0 := by
    obtain ⟨scored, hscored⟩ := List.exists_mem_of_ne_nil _ h
    have hgroup : (branch scored, frontier.filter fun other => branch other = branch scored) ∈
        group branch frontier := mem_group_of_mem hscored
    exact_mod_cast (List.length_pos_of_mem hgroup).ne'
  have hperm : ((group branch frontier).flatMap Prod.snd).Perm frontier := flatMap_group_perm frontier
  rw [← (hperm.map _).sum_eq, hflat _ hbranch]
  exact mul_one_div_cancel hlength

theorem sum_sharesOf (h : frontier ≠ []) : ((sharesOf frontier).map Prod.snd).sum = 1 := by
  have hglobal : (frontier.map fun scored => weight scored / (frontier.map weight).sum).sum = 1 := by
    simp only [div_eq_mul_inv]
    rw [List.sum_map_mul_right]
    exact mul_inv_cancel₀ (sum_weight_pos h).ne'
  have hmixed : ∀ l : List Scored, (l.map (shareOf frontier)).sum =
      ((l.map fun scored => weight scored / (frontier.map weight).sum).sum +
        (l.map (localShare frontier)).sum) / 2 := by
    intro l
    induction l with
    | nil => simp
    | cons scored l ih =>
      simp only [List.map_cons, List.sum_cons]
      rw [ih, shareOf, localShare]
      ring
  have hsnd : (sharesOf frontier).map Prod.snd = frontier.map (shareOf frontier) := by
    simp [sharesOf, Function.comp_def]
  rw [hsnd, hmixed, hglobal, sum_localShare h]
  norm_num

theorem shareOf_pos {scored : Scored} (h : scored ∈ frontier) : 0 < shareOf frontier scored := by
  have hglobal : 0 < weight scored / (frontier.map weight).sum :=
    div_pos (weight_pos scored) (sum_weight_pos (List.ne_nil_of_mem h))
  have hlocal := localShare_pos h
  unfold shareOf
  unfold localShare at hlocal
  linarith

theorem sharesOf_pos {share : String × ℚ} (h : share ∈ sharesOf frontier) : 0 < share.2 := by
  obtain ⟨scored, hscored, rfl⟩ := List.mem_map.mp h
  exact shareOf_pos hscored

theorem sharesOf_le_one {share : String × ℚ} (h : share ∈ sharesOf frontier) : share.2 ≤ 1 := by
  have hne : frontier ≠ [] := by
    obtain ⟨scored, hscored, rfl⟩ := List.mem_map.mp h
    exact List.ne_nil_of_mem hscored
  rw [← sum_sharesOf hne]
  refine List.single_le_sum (fun value hvalue => ?_) _ (List.mem_map_of_mem h)
  obtain ⟨other, hother, rfl⟩ := List.mem_map.mp hvalue
  exact (sharesOf_pos hother).le

theorem keys_sharesOf (frontier : List Scored) :
    (sharesOf frontier).map Prod.fst = frontier.map digest := by
  simp [sharesOf, Function.comp_def]

/-! ## The plan -/

section Records

variable (scores budget candidates)

/-- The shares of the candidates, of which those of the frontier have one. -/
def planShares : List (String × ℚ) := sharesOf (frontierOf (lawful scores budget candidates))

/-- The allocation that a plan has for a candidate. -/
def planRecord (candidate : SensorCapability) : AllocationRecord :=
  allocationOf scores budget (planShares scores budget candidates)
    (apportion budget.latencyMs (planShares scores budget candidates))
    (apportion budget.samples (planShares scores budget candidates)) candidate

/-- The allocations of a plan, by the digests. -/
def planRecords : List AllocationRecord :=
  (sortedByDigest candidates).map (planRecord scores budget candidates)

end Records

/-- The order of the candidates does not matter to the tables. -/
theorem planShares_perm (h : candidates'.Perm candidates) :
    (planShares scores budget candidates').Perm (planShares scores budget candidates) :=
  sharesOf_perm (frontierOf_perm (h.filterMap _))

theorem nodup_planShares (hnodup : (candidates.map fun c => c.digest).Nodup) :
    ((planShares scores budget candidates).map Prod.fst).Nodup := by
  rw [planShares, keys_sharesOf]
  exact hnodup.sublist (digests_sublist candidates)

theorem planShares_subset : (planShares scores budget candidates).map Prod.fst ⊆
    candidates.map fun c => c.digest := by
  rw [planShares, keys_sharesOf]
  exact (digests_sublist candidates).subset

theorem planRecord_perm (hnodup : (candidates.map fun c => c.digest).Nodup)
    (h : candidates'.Perm candidates) :
    planRecord scores budget candidates' = planRecord scores budget candidates := by
  have hperm : (planShares scores budget candidates').Perm (planShares scores budget candidates) :=
    planShares_perm h
  have hkeys : ((planShares scores budget candidates).map Prod.fst).Nodup := nodup_planShares hnodup
  have hshare (k : String) : (planShares scores budget candidates').lookup k =
      (planShares scores budget candidates).lookup k :=
    lookup_perm ((hperm.map Prod.fst).nodup_iff.mpr hkeys) hperm k
  have hpart (total : ℤ) (k : String) :
      (apportion total (planShares scores budget candidates')).lookup k =
        (apportion total (planShares scores budget candidates)).lookup k := by
    refine (lookup_perm ?_ (apportion_perm hkeys hperm).symm k).symm
    rwa [keys_apportion]
  funext candidate
  simp only [planRecord, allocationOf, hshare, hpart]

/-- What a plan allocates, by its tables. -/
structure RecordSpec (scores : String → Option CandidateScore) (budget : Budget)
    (candidates : List SensorCapability) (candidate : SensorCapability) (r : AllocationRecord) :
    Prop where
  sensorDigest : r.sensorDigest = candidate.digest
  sensorName : r.sensorName = candidate.name
  independenceKey : r.independenceKey = candidate.independenceKey
  onFrontier : r.onFrontier =
    ((planShares scores budget candidates).lookup candidate.digest).isSome
  share : r.continuationShare =
    ((planShares scores budget candidates).lookup candidate.digest).getD 0
  cost : r.allocatedCost =
    budget.cost * ((planShares scores budget candidates).lookup candidate.digest).getD 0
  latency : r.allocatedLatencyMs = ((apportion budget.latencyMs
    (planShares scores budget candidates)).lookup candidate.digest).getD 0
  samples : r.allocatedSamples = ((apportion budget.samples
    (planShares scores budget candidates)).lookup candidate.digest).getD 0

theorem planRecord_spec (candidate : SensorCapability) : RecordSpec scores budget candidates
    candidate (planRecord scores budget candidates candidate) := by
  unfold planRecord allocationOf
  split
  · next hshare => constructor <;> simp [hshare]
  · next hnone =>
    have hkey := lookup_eq_none_iff.mp hnone
    have hpart (total : ℤ) : (apportion total (planShares scores budget candidates)).lookup
        candidate.digest = none := lookup_eq_none_iff.mpr (by rwa [keys_apportion])
    constructor <;> simp [hnone, hpart]

theorem sorted_perm (candidates : List SensorCapability) :
    (sortedByDigest candidates).Perm candidates := List.perm_insertionSort _ _

theorem planRecords_perm (hnodup : (candidates.map fun c => c.digest).Nodup)
    (h : candidates'.Perm candidates) :
    planRecords scores budget candidates' = planRecords scores budget candidates := by
  have : Std.Total fun a b : SensorCapability => a.digest ≤ b.digest := ⟨fun a b => le_total _ _⟩
  have : IsTrans SensorCapability fun a b => a.digest ≤ b.digest := ⟨fun a b c => le_trans⟩
  have hsorted : sortedByDigest candidates' = sortedByDigest candidates := by
    refine List.Perm.eq_of_pairwise (fun a b ha hb hab hba => ?_) (List.pairwise_insertionSort _ _)
      (List.pairwise_insertionSort _ _)
      ((sorted_perm candidates').trans (h.trans (sorted_perm candidates).symm))
    have ha' : a ∈ candidates := h.mem_iff.mp ((sorted_perm candidates').mem_iff.mp ha)
    have hb' : b ∈ candidates := (sorted_perm candidates).mem_iff.mp hb
    exact List.inj_on_of_nodup_map hnodup ha' hb' (hab.antisymm hba)
  rw [planRecords, planRecords, hsorted, planRecord_perm hnodup h]

/-- What a table of the frontier comes to over all candidates. -/
theorem sum_over_candidates {α : Type} [AddCommMonoid α]
    (hnodup : (candidates.map fun c => c.digest).Nodup) {table : List (String × α)}
    (htable : table.map Prod.fst = (planShares scores budget candidates).map Prod.fst) :
    ((sortedByDigest candidates).map fun c => (table.lookup c.digest).getD 0).sum =
      (table.map Prod.snd).sum := by
  have hkeys : ((planShares scores budget candidates).map Prod.fst).Nodup := nodup_planShares hnodup
  have hsum := sum_lookup (l := table) hnodup (htable ▸ hkeys) (htable ▸ planShares_subset)
  rw [List.map_map] at hsum
  rw [← hsum]
  exact ((sorted_perm candidates).map _).sum_eq

theorem sum_planShares (h : lawful scores budget candidates ≠ []) :
    ((planShares scores budget candidates).map Prod.snd).sum = 1 :=
  sum_sharesOf (frontierOf_ne_nil h)

/-- The totals of a plan are those of the budget. -/
theorem totals_planRecords (hnodup : (candidates.map fun c => c.digest).Nodup)
    (hlawful : lawful scores budget candidates ≠ []) :
    ((planRecords scores budget candidates).map fun r => r.continuationShare).sum = 1 ∧
      ((planRecords scores budget candidates).map fun r => r.allocatedCost).sum = budget.cost ∧
      ((planRecords scores budget candidates).map fun r => r.allocatedLatencyMs).sum =
        budget.latencyMs ∧
      ((planRecords scores budget candidates).map fun r => r.allocatedSamples).sum =
        budget.samples := by
  have hkeys : ((planShares scores budget candidates).map Prod.fst).Nodup := nodup_planShares hnodup
  have hshares : ((planShares scores budget candidates).map Prod.snd).sum = 1 :=
    sum_planShares hlawful
  have hspec (c : SensorCapability) : RecordSpec scores budget candidates c
      (planRecord scores budget candidates c) := planRecord_spec c
  have hpart (total : ℤ) : ((sortedByDigest candidates).map fun c =>
      ((apportion total (planShares scores budget candidates)).lookup c.digest).getD 0).sum =
        total :=
    (sum_over_candidates hnodup keys_apportion).trans (sum_apportion hshares hkeys)
  have hshare := (sum_over_candidates hnodup rfl).trans hshares
  simp only [planRecords, List.map_map, Function.comp_def, (hspec _).share, (hspec _).cost,
    (hspec _).latency, (hspec _).samples, hpart, hshare, List.sum_map_mul_left, mul_one, and_self]

/-- Every allocation passes its check. -/
theorem check_planRecord (candidate : SensorCapability) :
    ∃ allocation, (planRecord scores budget candidates candidate).check = .ok allocation ∧
      allocation.toAllocationRecord = planRecord scores budget candidates candidate := by
  have hspec : RecordSpec scores budget candidates candidate
      (planRecord scores budget candidates candidate) := planRecord_spec candidate
  have hshare : 0 ≤ ((planShares scores budget candidates).lookup candidate.digest).getD 0 ∧
      ((planShares scores budget candidates).lookup candidate.digest).getD 0 ≤ 1 := by
    cases h : (planShares scores budget candidates).lookup candidate.digest with
    | none => exact ⟨le_rfl, zero_le_one⟩
    | some share => exact ⟨(sharesOf_pos (mem_of_lookup h)).le, sharesOf_le_one (mem_of_lookup h)⟩
  have hpart {total : ℤ} (htotal : 0 ≤ total) : 0 ≤ ((apportion total
      (planShares scores budget candidates)).lookup candidate.digest).getD 0 := by
    cases h : (apportion total (planShares scores budget candidates)).lookup candidate.digest with
    | none => exact le_rfl
    | some part => exact part_nonneg (fun share hs => (sharesOf_pos hs).le) htotal (mem_of_lookup h)
  have hshare' : 0 ≤ (planRecord scores budget candidates candidate).continuationShare ∧
      (planRecord scores budget candidates candidate).continuationShare ≤ 1 := by
    rwa [hspec.share]
  have hallocated : 0 ≤ (planRecord scores budget candidates candidate).allocatedCost ∧
      0 ≤ (planRecord scores budget candidates candidate).allocatedLatencyMs ∧
      0 ≤ (planRecord scores budget candidates candidate).allocatedSamples := by
    rw [hspec.cost, hspec.latency, hspec.samples]
    exact ⟨mul_nonneg budget.cost_nonneg hshare.1, hpart budget.latencyMs_nonneg,
      hpart budget.samples_nonneg⟩
  refine ⟨⟨planRecord scores budget candidates candidate, hshare', hallocated⟩, ?_, rfl⟩
  rw [AllocationRecord.check, dif_pos hshare', dif_pos hallocated]

theorem digests_planRecords : (planRecords scores budget candidates).map (·.sensorDigest) =
    (sortedByDigest candidates).map (·.digest) := by
  rw [planRecords, List.map_map]
  exact List.map_congr_left fun c _ => (planRecord_spec c).sensorDigest

theorem apportionInteger_eq {total : ℤ} {shares : List (String × ℚ)} (htotal : 0 ≤ total) :
    apportionInteger total shares = .ok (apportion total shares) := by
  rw [apportionInteger, if_neg (not_lt.mpr htotal)]
  split
  · next hnil => rw [hnil]; rfl
  · rfl

theorem map_of_records {allocations : List CMCAAllocation}
    (h : allocations.map (·.toAllocationRecord) = planRecords scores budget candidates) {α : Type}
    (f : AllocationRecord → α) : (allocations.map fun a => f a.toAllocationRecord) =
      (planRecords scores budget candidates).map f := by
  rw [← h, List.map_map]
  rfl

theorem totals_of_records {allocations : List CMCAAllocation}
    (hnodup : (candidates.map fun c => c.digest).Nodup)
    (hlawful : lawful scores budget candidates ≠ [])
    (h : allocations.map (·.toAllocationRecord) = planRecords scores budget candidates) :
    allocatedShare allocations = 1 ∧ allocatedCost allocations = budget.cost ∧
      allocatedLatencyMs allocations = budget.latencyMs ∧
      allocatedSamples allocations = budget.samples := by
  obtain ⟨hshare, hcost, hlatency, hsamples⟩ := totals_planRecords hnodup hlawful
  exact ⟨(congrArg List.sum (map_of_records h fun r => r.continuationShare)).trans hshare,
    (congrArg List.sum (map_of_records h fun r => r.allocatedCost)).trans hcost,
    (congrArg List.sum (map_of_records h fun r => r.allocatedLatencyMs)).trans hlatency,
    (congrArg List.sum (map_of_records h fun r => r.allocatedSamples)).trans hsamples⟩

theorem build_eq_ok {allocations : List CMCAAllocation}
    (hnodup : (candidates.map fun c => c.digest).Nodup)
    (hlawful : lawful scores budget candidates ≠ [])
    (h : allocations.map (·.toAllocationRecord) = planRecords scores budget candidates) :
    ∃ plan, CMCAPlan.build budget allocations = .ok plan ∧ plan.sourceBudget = budget ∧
      plan.allocations = allocations := by
  obtain ⟨hshare, hcost, hlatency, hsamples⟩ := totals_of_records hnodup hlawful h
  have hdigests : (allocations.map fun a => a.sensorDigest).Nodup := by
    rw [map_of_records h fun r => r.sensorDigest, digests_planRecords]
    exact ((sorted_perm candidates).map _).nodup_iff.mpr hnodup
  refine ⟨⟨budget, allocations, hdigests, hshare, hcost.le, hlatency.le, hsamples.le⟩, ?_, rfl, rfl⟩
  rw [CMCAPlan.build, dif_pos hdigests, dif_pos hshare, dif_pos hcost.le, dif_pos hlatency.le,
    dif_pos hsamples.le]

/-- The plan that is returned has these allocations. -/
theorem allocateCmca_eq (hnodup : (candidates.map fun c => c.digest).Nodup)
    (hlawful : lawful scores budget candidates ≠ []) :
    ∃ plan, allocateCmca scores budget candidates = .ok plan ∧ plan.sourceBudget = budget ∧
      plan.allocations.map (·.toAllocationRecord) = planRecords scores budget candidates := by
  obtain ⟨allocations, hmapM, hrecords⟩ : ∃ allocations, ((sortedByDigest candidates).mapM
      fun c => (planRecord scores budget candidates c).check) = .ok allocations ∧
        allocations.map (·.toAllocationRecord) = planRecords scores budget candidates :=
    Fallible.exists_mapM_map fun c _ => check_planRecord c
  obtain ⟨plan, hbuild, hbudget, hallocations⟩ := build_eq_ok hnodup hlawful hrecords
  refine ⟨plan, ?_, hbudget, hallocations ▸ hrecords⟩
  have hne : candidates ≠ [] := by
    rintro rfl
    exact hlawful rfl
  have hshares : ((sharesOf (frontierOf (lawful scores budget candidates))).map Prod.snd).sum = 1 :=
    sum_planShares hlawful
  rw [allocateCmca, if_neg hne, if_neg (not_not.mpr hnodup), if_neg hlawful]
  dsimp only
  rw [if_neg (frontierOf_ne_nil hlawful), if_neg (not_not.mpr hshares),
    apportionInteger_eq budget.latencyMs_nonneg, apportionInteger_eq budget.samples_nonneg]
  change (((sortedByDigest candidates).mapM fun c =>
    (planRecord scores budget candidates c).check) >>= CMCAPlan.build budget) = .ok plan
  rw [hmapM]
  exact hbuild

theorem toAllocationRecord_injective :
    Function.Injective fun a : CMCAAllocation => a.toAllocationRecord := by
  rintro ⟨r, _, _⟩ ⟨r', _, _⟩ h
  obtain rfl : r = r' := h
  rfl

theorem plan_ext {plan plan' : CMCAPlan} (hbudget : plan.sourceBudget = plan'.sourceBudget)
    (h : plan.allocations.map (·.toAllocationRecord) =
      plan'.allocations.map (·.toAllocationRecord)) : plan = plan' := by
  have hallocations := List.map_injective_iff.mpr toAllocationRecord_injective h
  cases plan
  cases plan'
  obtain rfl := hbudget
  obtain rfl := hallocations
  rfl

/-- A candidate that has a score and is within the budget. -/
def IsLawful (scores : String → Option CandidateScore) (budget : Budget)
    (candidate : SensorCapability) : Prop :=
  (scores candidate.digest).isSome ∧
    budget.admits candidate.cost candidate.latencyMs 1 = true

theorem lawful_ne_nil (h : ∃ c ∈ candidates, IsLawful scores budget c) :
    lawful scores budget candidates ≠ [] := by
  obtain ⟨c, hc, hscore, hadmits⟩ := h
  obtain ⟨score, hscore⟩ := Option.isSome_iff_exists.mp hscore
  have hlawful : lawfulScore scores budget c = .ok score := by
    rw [lawfulScore, hscore]
    exact if_pos hadmits
  exact List.ne_nil_of_mem (List.mem_filterMap.mpr ⟨c, hc, by rw [hlawful]⟩)

/-- A plan that divides the whole budget among the frontier, each candidate in it once. -/
structure Closes (scores : String → Option CandidateScore) (budget : Budget)
    (candidates : List SensorCapability) (plan : CMCAPlan) : Prop where
  sourceBudget : plan.sourceBudget = budget
  candidates_perm : (plan.allocations.map fun a =>
    (a.sensorDigest, a.sensorName, a.independenceKey)).Perm
      (candidates.map fun c => (c.digest, c.name, c.independenceKey))
  frontier : ∀ a ∈ plan.allocations, a.onFrontier = true ↔
    a.sensorDigest ∈ (frontierOf (lawful scores budget candidates)).map digest
  share_pos : ∀ a ∈ plan.allocations, a.onFrontier = true → 0 < a.continuationShare
  share_closed : ((plan.allocations.filter fun a => a.onFrontier).map
    fun a => a.continuationShare).sum = 1
  cost_closed : allocatedCost plan.allocations = budget.cost
  latency_closed : allocatedLatencyMs plan.allocations = budget.latencyMs
  samples_closed : allocatedSamples plan.allocations = budget.samples
  latency_near : ∀ a ∈ plan.allocations,
    |(a.allocatedLatencyMs : ℚ) - a.continuationShare * budget.latencyMs| < 1
  samples_near : ∀ a ∈ plan.allocations,
    |(a.allocatedSamples : ℚ) - a.continuationShare * budget.samples| < 1

theorem sum_filter_of_zero {allocations : List CMCAAllocation}
    (h : ∀ a ∈ allocations, ¬a.onFrontier = true → a.continuationShare = 0) :
    ((allocations.filter fun a => a.onFrontier).map fun a => a.continuationShare).sum =
      allocatedShare allocations := by
  unfold allocatedShare
  induction allocations with
  | nil => rfl
  | cons a allocations ih =>
    have hrest := ih fun b hb => h b (List.mem_cons_of_mem _ hb)
    by_cases hfrontier : a.onFrontier = true
    · simp only [List.filter_cons, hfrontier, if_true, List.map_cons, List.sum_cons, hrest]
    · simp only [List.filter_cons, hfrontier, Bool.false_eq_true, if_false, hrest, List.map_cons,
        List.sum_cons, h a List.mem_cons_self hfrontier, zero_add]

theorem closes_of_records {plan : CMCAPlan} (hnodup : (candidates.map fun c => c.digest).Nodup)
    (hlawful : lawful scores budget candidates ≠ []) (hbudget : plan.sourceBudget = budget)
    (hrecords : plan.allocations.map (·.toAllocationRecord) =
      planRecords scores budget candidates) : Closes scores budget candidates plan := by
  have hkeys : ((planShares scores budget candidates).map Prod.fst).Nodup := nodup_planShares hnodup
  have hsum : ((planShares scores budget candidates).map Prod.snd).sum = 1 := sum_planShares hlawful
  obtain ⟨hshare, hcost, hlatency, hsamples⟩ := totals_of_records hnodup hlawful hrecords
  have hmem : ∀ a ∈ plan.allocations, ∃ c,
      RecordSpec scores budget candidates c a.toAllocationRecord := by
    intro a ha
    have hrecord := List.mem_map_of_mem (f := (·.toAllocationRecord)) ha
    rw [hrecords] at hrecord
    obtain ⟨c, -, heq⟩ := List.mem_map.mp hrecord
    exact ⟨c, heq ▸ planRecord_spec c⟩
  refine ⟨hbudget, ?_, ?_, ?_, ?_, hcost, hlatency, hsamples, ?_, ?_⟩
  · rw [map_of_records hrecords fun r => (r.sensorDigest, r.sensorName, r.independenceKey),
      planRecords, List.map_map]
    refine (List.Perm.of_eq (List.map_congr_left fun c _ => ?_)).trans ((sorted_perm candidates).map _)
    have hspec : RecordSpec scores budget candidates c (planRecord scores budget candidates c) :=
      planRecord_spec c
    rw [Function.comp_apply, hspec.sensorDigest, hspec.sensorName, hspec.independenceKey]
  · intro a ha
    obtain ⟨c, hspec⟩ := hmem a ha
    rw [hspec.onFrontier, hspec.sensorDigest, Option.isSome_iff_ne_none, Ne, lookup_eq_none_iff,
      not_not, planShares, keys_sharesOf]
  · intro a ha hfrontier
    obtain ⟨c, hspec⟩ := hmem a ha
    rw [hspec.onFrontier] at hfrontier
    obtain ⟨share, hlookup⟩ := Option.isSome_iff_exists.mp hfrontier
    rw [hspec.share, hlookup]
    exact sharesOf_pos (mem_of_lookup hlookup)
  · refine (sum_filter_of_zero fun a ha hfrontier => ?_).trans hshare
    obtain ⟨c, hspec⟩ := hmem a ha
    rw [hspec.onFrontier, Option.isSome_iff_ne_none, not_not] at hfrontier
    rw [hspec.share, hfrontier]
    rfl
  · intro a ha
    obtain ⟨c, hspec⟩ := hmem a ha
    rw [hspec.latency, hspec.share]
    exact abs_lookup_sub_lt_one hsum hkeys c.digest
  · intro a ha
    obtain ⟨c, hspec⟩ := hmem a ha
    rw [hspec.samples, hspec.share]
    exact abs_lookup_sub_lt_one hsum hkeys c.digest

/-- Whatever the weights and the branches, the plan divides the whole budget, and is the same in
every order of the candidates. -/
theorem allocateCmca_closes (scores : String → Option CandidateScore) (budget : Budget)
    (candidates : List SensorCapability) (hnodup : (candidates.map fun c => c.digest).Nodup)
    (hlawful : ∃ c ∈ candidates, IsLawful scores budget c) :
    ∃ plan, allocateCmca scores budget candidates = .ok plan ∧ Closes scores budget candidates plan ∧
      ∀ candidates' : List SensorCapability, candidates'.Perm candidates →
        allocateCmca scores budget candidates' = .ok plan := by
  have hne := lawful_ne_nil hlawful
  obtain ⟨plan, hplan, hbudget, hrecords⟩ := allocateCmca_eq hnodup hne
  refine ⟨plan, hplan, closes_of_records hnodup hne hbudget hrecords, fun candidates' h => ?_⟩
  have hnodup' : (candidates'.map fun c => c.digest).Nodup := (h.map _).nodup_iff.mpr hnodup
  have hne' : lawful scores budget candidates' ≠ [] := by
    obtain ⟨c, hc, hlawful⟩ := hlawful
    exact lawful_ne_nil ⟨c, h.mem_iff.mpr hc, hlawful⟩
  obtain ⟨plan', hplan', hbudget', hrecords'⟩ := allocateCmca_eq hnodup' hne'
  rw [hplan']
  refine congrArg Except.ok (plan_ext (hbudget'.trans hbudget.symm) ?_)
  rw [hrecords', hrecords, planRecords_perm hnodup h]

/-- A digest that ends in this digit. -/
def probeDigest (c : Char) : String := String.ofList (List.replicate 63 '0' ++ [c])

theorem probeDigest_hex {c : Char} (hc : c ∈ "0123456789abcdef".toList) :
    (probeDigest c).length = 64 ∧
      ∀ d ∈ (probeDigest c).toList, d ∈ "0123456789abcdef".toList := by
  unfold probeDigest
  rw [String.length_ofList, List.length_append, List.length_replicate, String.toList_ofList]
  refine ⟨rfl, fun d hd => ?_⟩
  rcases List.mem_append.mp hd with hd | hd
  · rw [(List.mem_replicate.mp hd).2]
    decide
  · rw [List.mem_singleton.mp hd]
    exact hc

theorem probeDigest_injective : Function.Injective probeDigest := by
  intro c d h
  have hlist := List.append_cancel_left (String.ofList_injective h)
  exact (List.cons.inj hlist).1

/-- A sensor of one branch. -/
def probe (c : Char) (hc : c ∈ "0123456789abcdef".toList) : SensorCapability where
  name := "probe"
  family := "network"
  domain := "edge"
  generation := 0
  digest := probeDigest c
  cost := 1
  latencyMs := 10
  named := by decide
  digest_hex := probeDigest_hex hc
  cost_nonneg := zero_le_one
  latencyMs_nonneg := by decide

/-- Two probes, of which the second has no score. -/
def probes : List SensorCapability := [probe 'a' (by decide), probe 'b' (by decide)]

def probeScores (digest : String) : Option CandidateScore :=
  if digest = probeDigest 'a' then some ⟨"probe", 1, 1, 0, 0, 0⟩ else none

def probeBudget : Budget where
  cost := 3
  latencyMs := 25
  samples := 2
  cost_nonneg := by decide
  latencyMs_nonneg := by decide
  samples_nonneg := by decide

theorem allocateCmca_closes_probes : ∃ plan,
    allocateCmca probeScores probeBudget probes = .ok plan ∧
      Closes probeScores probeBudget probes plan ∧ ∀ candidates' : List SensorCapability,
        candidates'.Perm probes → allocateCmca probeScores probeBudget candidates' = .ok plan := by
  have hdigests : probes.map (fun c => c.digest) = ['a', 'b'].map probeDigest := rfl
  have hnodup : (probes.map fun c => c.digest).Nodup := by
    rw [hdigests]
    exact List.Nodup.map probeDigest_injective (by decide)
  have hscore : (probeScores (probeDigest 'a')).isSome = true := by rw [probeScores, if_pos rfl]; rfl
  exact allocateCmca_closes probeScores probeBudget probes hnodup
    ⟨_, List.mem_cons_self, hscore, by decide +kernel⟩

end Cmca

end GymAct
