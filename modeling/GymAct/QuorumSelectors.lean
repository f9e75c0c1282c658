import GymAct.CausalClock
import GymAct.Grouping
import Mathlib.Data.Prod.Lex

/-!
# Selectors over a quorum

`selectors.py` and `engine.py` of `explore_replicated_projection_quorum`. SHA-256 and `json.dumps`
are the parameter `ReceiptCanon`.

Two clusters that are each a majority are one (`cluster_unique`), so the selectors that count
replicas select what a healthy quorum reports. The causal selector counts none : it selects what
the causal maxima report, of which the majority may have none (`select_agrees`).
-/

namespace GymAct

/-! ## `selectors.py` -/

inductive SelectorKind
  | strictMajorityCurrentness | maxCoverageFreshness | causalMaximaConservative | minimaxAmbiguity
  deriving DecidableEq, Repr

def SelectorKind.value : SelectorKind → String
  | strictMajorityCurrentness => "STRICT_MAJORITY_CURRENTNESS"
  | maxCoverageFreshness => "MAX_COVERAGE_FRESHNESS"
  | causalMaximaConservative => "CAUSAL_MAXIMA_CONSERVATIVE"
  | minimaxAmbiguity => "MINIMAX_AMBIGUITY"

structure Selection where
  selector : SelectorKind
  generation : ℕ
  projectionDigest : String
  replicaIds : List String
  coverage : ℚ
  deriving DecidableEq, Repr

namespace QuorumSelectors

/-- A generation and a digest, and what reports them. -/
abbrev Cluster := (ℕ × String) × List ClockedProjection

/-- `_clusters`. -/
def clusters (observations : List ClockedProjection) : List Cluster :=
  Grouping.group (fun o => o.vote) observations

/-- The key of `sorted` : the size, then the generation, then the digest. -/
def clusterKey (cluster : Cluster) : ℕ ×ₗ ℕ ×ₗ String :=
  toLex (cluster.2.length, toLex (cluster.1.1, cluster.1.2))

/-- The candidates of a selector among the clusters. -/
def candidates (selector : SelectorKind) (observations : List ClockedProjection)
    (u : ReplicaUniverse) : Except QuorumRefusal (List Cluster) :=
  let groups := clusters observations
  match selector with
  | .strictMajorityCurrentness =>
    let highest := highestGeneration (observations.map ClockedProjection.toReplicaProjection)
    .ok (groups.filter fun cluster =>
      cluster.1.1 = highest ∧ u.quorumSize ≤ cluster.2.length)
  | .maxCoverageFreshness =>
    .ok ((groups.insertionSort fun a b => clusterKey b ≤ clusterKey a).take 1)
  | .causalMaximaConservative =>
    let maxima := (causalProfile observations).maximalReplicaIds
    let maximal := (groups.map fun cluster =>
      (cluster.1, cluster.2.filter fun member => member.replicaId ∈ maxima)).filter
        fun cluster => cluster.2 ≠ []
    if (maximal.map fun cluster => cluster.1.2).dedup.length ≠ 1 then
      .error ⟨"REFUSED_CAUSAL_MAXIMA_AMBIGUOUS", ""⟩
    else .ok maximal
  | .minimaxAmbiguity =>
    let conflict (cluster : Cluster) : ℤ := observations.length - cluster.2.length
    let least := groups.filter fun cluster => ∀ other ∈ groups, conflict cluster ≤ conflict other
    .ok (least.filter fun cluster => ∀ other ∈ least, other.1.1 ≤ cluster.1.1)

def select (selector : SelectorKind) (observations : List ClockedProjection)
    (u : ReplicaUniverse) : Except QuorumRefusal Selection :=
  if observations = [] then .error ⟨"REFUSED_NO_PROJECTION_EVIDENCE", ""⟩
  else
    match candidates selector observations u with
    | .error e => .error e
    | .ok [((generation, digest), members)] =>
      let ids := (members.map fun member => member.replicaId).insertionSort (· ≤ ·)
      .ok ⟨selector, generation, digest, ids, u.coverage ids⟩
    | .ok _ => .error ⟨"REFUSED_AMBIGUOUS_PROJECTION_SELECTION", ""⟩

/-! ## Clusters -/

variable {u : ReplicaUniverse} {l : List ClockedProjection} {v w : ℕ × String} {o : ClockedProjection}
  {cluster : Cluster}

/-- What reports a generation and a digest. -/
def members (l : List ClockedProjection) (v : ℕ × String) : List ClockedProjection :=
  l.filter fun o => o.vote = v

@[simp] theorem mem_members : o ∈ members l v ↔ o ∈ l ∧ o.vote = v := by
  simp [members]

theorem eq_members (h : cluster ∈ clusters l) : cluster.2 = members l cluster.1 :=
  (Grouping.groups_group l).eq_filter cluster h

/-! ## Majorities -/

theorem length_members (l : List ClockedProjection) (v : ℕ × String) : (members l v).length =
    ((l.map ClockedProjection.toReplicaProjection).map ReplicaProjection.vote).count v := by
  rw [members, ← List.countP_eq_length_filter, List.map_map, List.count, List.countP_map]
  exact List.countP_congr fun o _ => by simp

/-- Two clusters that are both a majority are one. -/
theorem cluster_unique (h : OncePerReplica u (l.map ClockedProjection.toReplicaProjection))
    (hv : u.quorumSize ≤ (members l v).length) (hw : u.quorumSize ≤ (members l w).length) :
    v = w := by
  rw [length_members, h.count_eq, ReplicaUniverse.quorumSize] at hv hw
  have hmeet : ∃ id, id ∈ voters u (l.map ClockedProjection.toReplicaProjection) v ∧
      id ∈ voters u (l.map ClockedProjection.toReplicaProjection) w := voters_meet (by omega)
  obtain ⟨id, hidv, hidw⟩ := hmeet
  obtain ⟨-, o, ho, hid, rfl⟩ := mem_voters.mp hidv
  obtain ⟨-, o', ho', hid', rfl⟩ := mem_voters.mp hidw
  rw [h.eq_of_replicaId ho ho' (hid.trans hid'.symm)]

/-- What the majority reports is a cluster of a majority. -/
theorem majority_cluster (h : OncePerReplica u (l.map ClockedProjection.toReplicaProjection))
    (hmajority : MajorityAt u (l.map ClockedProjection.toReplicaProjection) v.1 v.2) :
    u.quorumSize ≤ (members l v).length ∧ (v, members l v) ∈ clusters l := by
  have hvoters : u.replicaIds.length <
      2 * (voters u (l.map ClockedProjection.toReplicaProjection) v).length := hmajority.majority
  constructor
  · rw [length_members, h.count_eq, ReplicaUniverse.quorumSize]
    omega
  · obtain ⟨_, ho, hgeneration⟩ := hmajority.observed
    obtain ⟨o, hmem, rfl⟩ := List.mem_map.mp ho
    have hvote : o.vote = v := Prod.ext hgeneration (hmajority.sole _ ho hgeneration)
    exact hvote ▸ Grouping.mem_group_of_mem hmem

/-- The selectors that count replicas have no other candidate than a majority. -/
theorem candidate_of_majority (h : OncePerReplica u (l.map ClockedProjection.toReplicaProjection))
    (hmajority : MajorityAt u (l.map ClockedProjection.toReplicaProjection) v.1 v.2)
    {selector : SelectorKind} (hselector : selector ≠ .causalMaximaConservative)
    (hcandidates : candidates selector l u = .ok [cluster]) : cluster.1 = v := by
  obtain ⟨hquorum, hmem⟩ := majority_cluster h hmajority
  suffices hsize : cluster ∈ clusters l ∧ u.quorumSize ≤ cluster.2.length by
    exact cluster_unique h (eq_members hsize.1 ▸ hsize.2) hquorum
  cases selector with
  | causalMaximaConservative => exact absurd rfl hselector
  | strictMajorityCurrentness =>
    have hfilter := List.mem_of_mem_head? (congrArg List.head? (Except.ok.inj hcandidates))
    simp only [List.mem_filter, decide_eq_true_eq] at hfilter
    exact ⟨hfilter.1, hfilter.2.2⟩
  | maxCoverageFreshness =>
    have htop := Except.ok.inj hcandidates
    have hsorted := List.pairwise_insertionSort
      (fun a b : Cluster => clusterKey b ≤ clusterKey a) (clusters l)
    have hperm := List.perm_insertionSort
      (fun a b : Cluster => clusterKey b ≤ clusterKey a) (clusters l)
    generalize (clusters l).insertionSort
      (fun a b : Cluster => clusterKey b ≤ clusterKey a) = sorted at htop hsorted hperm
    cases sorted with
    | nil => cases htop
    | cons head rest =>
      obtain rfl : head = cluster := (List.cons.inj htop).1
      refine ⟨hperm.mem_iff.mp List.mem_cons_self, ?_⟩
      rcases List.mem_cons.mp (hperm.mem_iff.mpr hmem) with rfl | hrest
      · exact hquorum
      · have hle := (List.pairwise_cons.mp hsorted).1 _ hrest
        rcases Prod.Lex.toLex_le_toLex.mp hle with hlt | ⟨heq, -⟩
        · exact hquorum.trans hlt.le
        · exact hquorum.trans heq.le
  | minimaxAmbiguity =>
    have hfilter := List.mem_of_mem_head? (congrArg List.head? (Except.ok.inj hcandidates))
    simp only [List.mem_filter, decide_eq_true_eq] at hfilter
    have hleast : (l.length : ℤ) - cluster.2.length ≤ l.length - (members l v).length :=
      hfilter.1.2 _ hmem
    exact ⟨hfilter.1.1, by omega⟩

/-- The causal selector's candidate is what all causal maxima report. -/
theorem candidate_of_maxima (hcandidates : candidates .causalMaximaConservative l u = .ok [cluster]) :
    (∀ o ∈ l, o.replicaId ∈ (causalProfile l).maximalReplicaIds → o.vote = cluster.1) ∧
      ∃ o ∈ l, o.replicaId ∈ (causalProfile l).maximalReplicaIds ∧ o.vote = cluster.1 := by
  unfold candidates at hcandidates
  dsimp only at hcandidates
  split at hcandidates
  · cases hcandidates
  have hmaximal := Except.ok.inj hcandidates
  constructor
  · intro o ho htop
    have hmem : (o.vote, (members l o.vote).filter fun member =>
        member.replicaId ∈ (causalProfile l).maximalReplicaIds) ∈ [cluster] := by
      rw [← hmaximal, List.mem_filter]
      refine ⟨List.mem_map.mpr ⟨_, Grouping.mem_group_of_mem ho, rfl⟩, decide_eq_true ?_⟩
      exact List.ne_nil_of_mem (List.mem_filter.mpr ⟨mem_members.mpr ⟨ho, rfl⟩, decide_eq_true htop⟩)
    exact congrArg Prod.fst (List.mem_singleton.mp hmem)
  · have hmem := hmaximal ▸ List.mem_singleton_self cluster
    obtain ⟨hmem, hne⟩ := List.mem_filter.mp hmem
    obtain ⟨whole, hwhole, rfl⟩ := List.mem_map.mp hmem
    obtain ⟨o, ho⟩ := List.exists_mem_of_ne_nil _ (of_decide_eq_true hne)
    obtain ⟨ho, htop⟩ := List.mem_filter.mp ho
    rw [eq_members hwhole, mem_members] at ho
    exact ⟨o, ho.1, of_decide_eq_true htop, ho.2⟩

theorem candidates_of_select {selector : SelectorKind} {selection : Selection}
    (h : select selector l u = .ok selection) : ∃ ms, candidates selector l u =
      .ok [((selection.generation, selection.projectionDigest), ms)] := by
  unfold select at h
  split at h
  · cases h
  split at h
  · cases h
  · next generation digest ms heq =>
    cases h
    exact ⟨ms, heq⟩
  · cases h

end QuorumSelectors

/-! ## `engine.py` -/

/-- `json.dumps` with sorted keys, and the hex SHA-256 of a text. -/
structure ReceiptCanon where
  dumps : Value → String
  sha256 : String → String

namespace ReceiptCanon

variable (K : ReceiptCanon)

/-- `fingerprint`. -/
def fingerprint (o : ClockedProjection) : String :=
  K.sha256 (K.dumps (.dict [
    ("clock", .list (o.clock.entries.entries.map fun entry =>
      .list [.str entry.1, .int entry.2])),
    ("generation", .int o.generation), ("observed_at", .str o.observedAt.isoformat),
    ("projection_digest", .str o.projectionDigest), ("replica_id", .str o.replicaId),
    ("representation", .str o.representation.value), ("semantic_digest", .str o.semanticDigest),
    ("subject", .str o.subject)]))

/-- One level of the tree, the last text standing for two when their number is odd. -/
def hashPairs : List String → List String
  | [] => []
  | [last] => [K.sha256 (last ++ last)]
  | left :: right :: rest => K.sha256 (left ++ right) :: hashPairs rest

/-- The loop of `audit_root`, each level shorter than the one below. -/
def hashLevels : ℕ → List String → List String
  | 0, level => level
  | passes + 1, level => if 1 < level.length then hashLevels passes (K.hashPairs level) else level

def auditRoot (observations : List ClockedProjection) : String :=
  let leaves := (observations.map K.fingerprint).insertionSort (· ≤ ·)
  (K.hashLevels leaves.length leaves).headD (K.sha256 "")

end ReceiptCanon

inductive StorageKind
  | memory | jsonl | sqlite
  deriving DecidableEq, Repr

def StorageKind.value : StorageKind → String
  | memory => "MEMORY"
  | jsonl => "JSONL"
  | sqlite => "SQLITE"

structure StorageCapability where
  kind : StorageKind
  durable : Bool
  transactional : Bool
  deriving DecidableEq, Repr

/-- `CAPABILITIES`. -/
def storageCapabilities : List StorageCapability :=
  [⟨.memory, false, false⟩, ⟨.jsonl, true, false⟩, ⟨.sqlite, true, true⟩]

def chooseStorage (durable transactional : Bool) : Except QuorumRefusal StorageCapability :=
  match storageCapabilities.filter fun item =>
      (!durable || item.durable) && (!transactional || item.transactional) with
  | [] => .error ⟨"REFUSED_NO_STORAGE_CAPABILITY", ""⟩
  | item :: _ => .ok item

inductive ActionClass
  | select | construct | do
  deriving DecidableEq, Repr

def ActionClass.value : ActionClass → String
  | .select => "SELECT"
  | .construct => "CONSTRUCT"
  | .do => "DO"

namespace QuorumSelectors

structure QualificationReceipt where
  body : Payload
  digest : String

/-- `QualificationReceipt.create`. -/
def createReceipt (K : ReceiptCanon) (body : Payload) : QualificationReceipt :=
  let safe := (body.set "actuation_performed" (.bool false)).set "schema"
    (.str "gymact.explore-replicated-projection-quorum/1")
  ⟨safe, K.sha256 (K.dumps (.dict safe))⟩

structure Qualification where
  assessment : QuorumAssessment
  selection : Option Selection
  storage : StorageCapability
  receipt : QualificationReceipt

/-- `str` of a `Fraction`. -/
def fractionText (q : ℚ) : String :=
  if q.den = 1 then toString q.num else toString q.num ++ "/" ++ toString q.den

section Qualify

variable (subject semanticDigest : String) (u : ReplicaUniverse) (window : ObservationWindow)

/-- `admit_observations`, which passes clocks and representations on unread. -/
def admitClocked (observations : List ClockedProjection) (now : Datetime) :
    Except QuorumRefusal (List ClockedProjection) :=
  match now with
  | .naive _ => throw ⟨"REFUSED_NAIVE_NOW", ""⟩
  | .aware now => do
    let s ← observations.foldlM (fun (s : List String × List ClockedProjection) o => do
      let admitted ← admitObservation subject semanticDigest u window now (s.1, [])
        o.toReplicaProjection
      return (admitted.1, s.2 ++ [o])) ([], [])
    return s.2.insertionSort fun a b => a.replicaId ≤ b.replicaId

def requireAction (action : ActionClass) : Except QuorumRefusal Unit :=
  if action = .do then .error ⟨"REFUSED_UNRECEIPTED_ACTUATION", ""⟩ else .ok ()

/-- Only a healthy quorum is selected from. -/
def selectHealthy (selector : SelectorKind) (admitted : List ClockedProjection)
    (assessment : QuorumAssessment) : Except QuorumRefusal (Option Selection) :=
  if assessment.state = .healthy then (select selector admitted u).map some else .ok none

/-- The `body` of `qualify`. -/
def receiptBody (K : ReceiptCanon) (admitted : List ClockedProjection) (selector : SelectorKind)
    (action : ActionClass) (assessment : QuorumAssessment) (selection : Option Selection)
    (storage : StorageCapability) : Payload :=
  let profile := causalProfile admitted
  [("action", .str action.value),
    ("agreeing_replicas", .ofStrings assessment.agreeingReplicas),
    ("audit_root", .str (K.auditRoot admitted)),
    ("causal_maxima", .ofStrings profile.maximalReplicaIds),
    ("concurrency_ratio", .str (fractionText profile.concurrencyRatio)),
    ("coverage", .str (fractionText assessment.coverage)),
    ("semantic_digest", .str semanticDigest),
    ("selected_generation", selection.elim .null fun s => .int s.generation),
    ("selected_projection_digest", selection.elim .null fun s => .str s.projectionDigest),
    ("selector", .str selector.value),
    ("standing", .str assessment.standing),
    ("storage", .str storage.kind.value),
    ("subject", .str subject)]

def qualify (K : ReceiptCanon) (observations : List ClockedProjection) (now : Datetime)
    (selector : SelectorKind) (durable transactional : Bool) (action : ActionClass) :
    Except QuorumRefusal Qualification := do
  requireAction action
  let admitted ← admitClocked subject semanticDigest u window observations now
  let assessment := assessQuorum (admitted.map ClockedProjection.toReplicaProjection) u
  let selection ← selectHealthy u selector admitted assessment
  let storage ← chooseStorage durable transactional
  let body := receiptBody subject semanticDigest K admitted selector action assessment selection
    storage
  return ⟨assessment, selection, storage, createReceipt K body⟩

variable {subject semanticDigest u window}

/-- Admission of the projections, whatever their clocks. -/
theorem foldlM_admitClocked {now : PyDatetime} : ∀ {observations : List ClockedProjection}
    {s s' : List String × List ClockedProjection},
    observations.foldlM (fun (s : List String × List ClockedProjection) o => do
      let admitted ← admitObservation subject semanticDigest u window now (s.1, [])
        o.toReplicaProjection
      return (admitted.1, s.2 ++ [o])) s = .ok s' →
    (observations.map ClockedProjection.toReplicaProjection).foldlM
      (admitObservation subject semanticDigest u window now)
      (s.1, s.2.map ClockedProjection.toReplicaProjection) =
        .ok (s'.1, s'.2.map ClockedProjection.toReplicaProjection)
  | [], s, s', h => by
    cases h
    rfl
  | o :: observations, s, s', h => by
    rw [List.foldlM_cons] at h
    obtain ⟨t, ht, h⟩ := Fallible.bind_eq_ok.mp h
    obtain ⟨admitted, hadmitted, ht⟩ := Fallible.bind_eq_ok.mp ht
    obtain ⟨hpasses, hnew, rfl⟩ := admitObservation_eq_ok.mp hadmitted
    cases ht
    have hrest := foldlM_admitClocked h
    have hstep : admitObservation subject semanticDigest u window now
        (s.1, s.2.map ClockedProjection.toReplicaProjection) o.toReplicaProjection =
          .ok (o.replicaId :: s.1, s.2.map ClockedProjection.toReplicaProjection ++
            [o.toReplicaProjection]) := admitObservation_eq_ok.mpr ⟨hpasses, hnew, rfl⟩
    rw [List.map_cons, List.foldlM_cons, hstep]
    simpa using hrest

theorem admitted_of_admitClocked {observations : List ClockedProjection} {now : Datetime}
    (h : admitClocked subject semanticDigest u window observations now = .ok l) :
    AdmittedObservations u (l.map ClockedProjection.toReplicaProjection) := by
  refine ⟨subject, semanticDigest, window,
    observations.map ClockedProjection.toReplicaProjection, now, ?_⟩
  cases now with
  | naive _ => cases h
  | aware now =>
    obtain ⟨s, hs, h⟩ := Fallible.bind_eq_ok.mp h
    cases h
    rw [List.map_insertionSort _ (fun a b : ReplicaProjection => a.replicaId ≤ b.replicaId) _ _
      fun _ _ _ _ => Iff.rfl]
    exact Fallible.bind_eq_ok.mpr ⟨_, foldlM_admitClocked hs, rfl⟩

/-- What a qualification says of the selection. -/
theorem qualify_spec {K : ReceiptCanon} {observations : List ClockedProjection} {now : Datetime}
    {selector : SelectorKind} {durable transactional : Bool} {action : ActionClass}
    {q : Qualification} (h : qualify subject semanticDigest u window K observations now selector
      durable transactional action = .ok q) :
    ∃ l, admitClocked subject semanticDigest u window observations now = .ok l ∧
      q.assessment = assessQuorum (l.map ClockedProjection.toReplicaProjection) u ∧
      (q.assessment.state = .healthy → ∃ selection, q.selection = some selection ∧
        select selector l u = .ok selection) ∧
      q.receipt.body.lookup "selected_generation" =
        some (q.selection.elim .null fun s => .int s.generation) ∧
      q.receipt.body.lookup "selected_projection_digest" =
        some (q.selection.elim .null fun s => .str s.projectionDigest) := by
  unfold qualify at h
  obtain ⟨_, -, h⟩ := Fallible.bind_eq_ok.mp h
  obtain ⟨l, hl, h⟩ := Fallible.bind_eq_ok.mp h
  obtain ⟨selection, hselection, h⟩ := Fallible.bind_eq_ok.mp h
  obtain ⟨storage, -, h⟩ := Fallible.bind_eq_ok.mp h
  cases h
  refine ⟨l, hl, rfl, fun hhealthy => ?_, ?_, ?_⟩
  · rw [selectHealthy, if_pos hhealthy] at hselection
    cases hselect : select selector l u with
    | error e =>
      rw [hselect] at hselection
      cases hselection
    | ok chosen =>
      rw [hselect] at hselection
      cases hselection
      exact ⟨chosen, rfl, rfl⟩
  · rfl
  · rfl

end Qualify

/-- What a selection of `w` has to do with the `v` that a healthy quorum reports. -/
structure Agrees (selector : SelectorKind) (l : List ClockedProjection) (v w : ℕ × String) :
    Prop where
  counted : selector ≠ .causalMaximaConservative → w = v
  maxima : selector = .causalMaximaConservative →
    ∀ o ∈ l, o.replicaId ∈ (causalProfile l).maximalReplicaIds → o.vote = w
  maxima_iff : selector = .causalMaximaConservative →
    (w = v ↔ ∃ o ∈ l, o.replicaId ∈ (causalProfile l).maximalReplicaIds ∧ o.vote = v)

theorem agrees_of_select
    (hadmitted : AdmittedObservations u (l.map ClockedProjection.toReplicaProjection))
    (hhealthy : (assessQuorum (l.map ClockedProjection.toReplicaProjection) u).Healthy v.1 v.2)
    {selector : SelectorKind} {selection : Selection}
    (hselect : select selector l u = .ok selection) :
    Agrees selector l v (selection.generation, selection.projectionDigest) := by
  obtain ⟨_, _, _, _, _, hadmit⟩ := hadmitted
  have honce := oncePerReplica_of_admit hadmit
  obtain ⟨ms, hcandidates⟩ := candidates_of_select hselect
  refine ⟨fun hselector => ?_, ?_, ?_⟩
  · exact candidate_of_majority honce (honce.healthy_iff.mp hhealthy) hselector hcandidates
  · rintro rfl
    exact (candidate_of_maxima hcandidates).1
  · rintro rfl
    obtain ⟨hall, o, ho, htop, hvote⟩ := candidate_of_maxima hcandidates
    constructor
    · intro heq
      exact ⟨o, ho, htop, hvote.trans heq⟩
    · rintro ⟨o', ho', htop', hvote'⟩
      exact (hall o' ho' htop').symm.trans hvote'

/-- On a healthy quorum the three selectors that count replicas select what it reports. The causal
selector selects what all causal maxima report, which is the same if and only if one of them
reports it. A receipt binds what was selected. -/
theorem select_agrees (u : ReplicaUniverse) (selector : SelectorKind) :
    (∀ l, AdmittedObservations u (l.map ClockedProjection.toReplicaProjection) →
      ∀ generation digest, (assessQuorum (l.map ClockedProjection.toReplicaProjection) u).Healthy
        generation digest → ∀ selection, select selector l u = .ok selection →
          Agrees selector l (generation, digest)
            (selection.generation, selection.projectionDigest)) ∧
      ∀ subject semanticDigest window K observations now durable transactional action q,
        qualify subject semanticDigest u window K observations now selector durable transactional
          action = .ok q →
        ∀ generation digest, q.assessment.Healthy generation digest → ∃ l w,
          admitClocked subject semanticDigest u window observations now = .ok l ∧
          q.receipt.body.lookup "selected_generation" = some (.int (w.1 : ℕ)) ∧
          q.receipt.body.lookup "selected_projection_digest" = some (.str w.2) ∧
          Agrees selector l (generation, digest) w := by
  refine ⟨fun l hadmitted g d hhealthy selection => agrees_of_select hadmitted hhealthy, ?_⟩
  intro subject semanticDigest window K observations now durable transactional action q hq g d
    hhealthy
  obtain ⟨l, hl, hassessment, hselection, hgeneration, hdigest⟩ := qualify_spec hq
  obtain ⟨selection, hselected, hselect⟩ := hselection hhealthy.1
  rw [hselected] at hgeneration hdigest
  refine ⟨l, (selection.generation, selection.projectionDigest), hl, hgeneration, hdigest, ?_⟩
  exact agrees_of_select (admitted_of_admitClocked hl) (hassessment ▸ hhealthy) hselect

/-! ## A majority that is overtaken -/

theorem healthy_overtaken :
    (assessQuorum (overtaken.map ClockedProjection.toReplicaProjection) threeReplicas).Healthy 2
      zeroDigest := by
  unfold QuorumAssessment.Healthy
  decide +kernel

/-- The third replica reports generation 1 with the latest clock, and is what the causal selector
selects. -/
theorem select_of_overtaken :
    AdmittedObservations threeReplicas (overtaken.map ClockedProjection.toReplicaProjection) ∧
      (assessQuorum (overtaken.map ClockedProjection.toReplicaProjection) threeReplicas).Healthy 2
        zeroDigest ∧
      select .causalMaximaConservative overtaken threeReplicas =
        .ok ⟨.causalMaximaConservative, 1, oneDigest, ["c"], 1 / 3⟩ ∧ zeroDigest ≠ oneDigest :=
  ⟨admitted_overtaken, healthy_overtaken, by decide +kernel, by decide +kernel⟩

theorem select_agrees_overtaken :
    ∃ selection, select .maxCoverageFreshness overtaken threeReplicas = .ok selection ∧
      (selection.generation, selection.projectionDigest) = (2, zeroDigest) := by
  have hselect : select .maxCoverageFreshness overtaken threeReplicas =
      .ok ⟨.maxCoverageFreshness, 2, zeroDigest, ["a", "b"], 2 / 3⟩ := by decide +kernel
  refine ⟨_, hselect, ?_⟩
  exact ((select_agrees threeReplicas .maxCoverageFreshness).1 overtaken admitted_overtaken 2
    zeroDigest healthy_overtaken _ hselect).counted (by decide)

end QuorumSelectors

end GymAct
