import Mathlib.Algebra.Field.Rat
import Mathlib.Data.Finset.Card
import Mathlib.Data.List.MinMax
import Mathlib.Data.List.Sort
import Mathlib.Data.Prod.Lex
import Mathlib.Data.String.Basic
import GymAct.ActionContract
import GymAct.Fallible

/-!
# Quorums of replicated projections

`assessQuorum` decides from what replicas were observed to project whether a majority of
the universe agrees on the highest generation. `admitObservations` is the admission before
it : every replica of the universe at most once, in the order of the replicas.

`quorum_safety` says what HEALTHY means (`MajorityAt`), that the order of the
observations does not matter, and that two healthy assessments of one generation agree
where their common replicas do.
-/

namespace GymAct

/-! ## Replicas and what they project -/

/-- A typed refusal of this graph. -/
structure QuorumRefusal where
  code : String
  detail : String := ""
  deriving DecidableEq, Repr

/-- A `datetime`, with a timezone or without. -/
inductive Datetime
  | naive (isoformat : String)
  | aware (t : PyDatetime)
  deriving DecidableEq, Repr

structure ReplicaUniverse where
  replicaIds : List String
  ids_ne : replicaIds ≠ []
  ids_nodup : replicaIds.Nodup
  ids_named : "" ∉ replicaIds

namespace ReplicaUniverse

def quorumSize (u : ReplicaUniverse) : ℕ := u.replicaIds.length / 2 + 1

def coverage (u : ReplicaUniverse) (observedIds : List String) : ℚ :=
  (u.replicaIds.filter (· ∈ observedIds)).length / u.replicaIds.length

end ReplicaUniverse

def isHex64 (s : String) : Bool :=
  s.toList.length = 64 &&
    s.toList.all fun c => ('0' ≤ c && c ≤ '9') || ('a' ≤ c && c ≤ 'f')

/-- A projection that a replica was observed with. -/
structure ReplicaProjection where
  subject : String
  replicaId : String
  generation : ℕ
  semanticDigest : String
  projectionDigest : String
  observedAt : PyDatetime
  replicaId_ok : replicaId ≠ "" ∧ '\n' ∉ replicaId.toList
  semanticDigest_ok : isHex64 semanticDigest = true
  projectionDigest_ok : isHex64 projectionDigest = true
  deriving DecidableEq

structure ObservationWindow where
  since : PyDatetime
  till : PyDatetime
  since_lt : since.instant < till.instant

def ObservationWindow.contains (w : ObservationWindow) (t : PyDatetime) : Bool :=
  w.since.instant ≤ t.instant && t.instant < w.till.instant

/-! ## Admission -/

section Admission

variable (subject semanticDigest : String) (u : ReplicaUniverse)
  (window : ObservationWindow)

/-- One observation, with the replicas seen and the observations admitted so far. -/
def admitObservation (now : PyDatetime) (s : List String × List ReplicaProjection)
    (observation : ReplicaProjection) :
    Except QuorumRefusal (List String × List ReplicaProjection) :=
  if observation.subject ≠ subject then throw ⟨"REFUSED_FOREIGN_SUBJECT", ""⟩
  else if observation.semanticDigest ≠ semanticDigest then throw ⟨"REFUSED_SEMANTIC_DRIFT", ""⟩
  else if observation.replicaId ∉ u.replicaIds then throw ⟨"REFUSED_FOREIGN_REPLICA", ""⟩
  else if observation.replicaId ∈ s.1 then throw ⟨"REFUSED_DUPLICATE_REPLICA_OBSERVATION", ""⟩
  else if observation.observedAt.instant > now.instant then
    throw ⟨"REFUSED_FUTURE_PROJECTION_EVIDENCE", ""⟩
  else if window.contains observation.observedAt = false then
    throw ⟨"REFUSED_OUT_OF_WINDOW_PROJECTION_EVIDENCE", ""⟩
  else pure (observation.replicaId :: s.1, s.2 ++ [observation])

/-- Sorted by the replica's id. -/
def sortReplicas (l : List ReplicaProjection) : List ReplicaProjection :=
  l.insertionSort fun a b => a.replicaId ≤ b.replicaId

def admitObservations (observations : List ReplicaProjection) (now : Datetime) :
    Except QuorumRefusal (List ReplicaProjection) :=
  match now with
  | .naive _ => throw ⟨"REFUSED_NAIVE_NOW", ""⟩
  | .aware now => do
    let s ← observations.foldlM (admitObservation subject semanticDigest u window now)
      ([], [])
    return sortReplicas s.2

end Admission

/-! ## The assessment -/

inductive QuorumState
  | healthy | partialVisibility | splitBrain | staleMajority | noQuorum
  deriving DecidableEq, Repr

structure QuorumAssessment where
  state : QuorumState
  standing : String
  coverage : ℚ
  highestGeneration : Option ℕ
  selectedGeneration : Option ℕ
  selectedProjectionDigest : Option String
  agreeingReplicas : List String
  deriving DecidableEq

/-- What a replica votes for. -/
def ReplicaProjection.vote (o : ReplicaProjection) : ℕ × String :=
  (o.generation, o.projectionDigest)

/-- The `Counter` of the votes, as items. -/
def voteCounts (l : List ReplicaProjection) : List ((ℕ × String) × ℕ) :=
  (l.map ReplicaProjection.vote).dedup.map fun v => (v, (l.map ReplicaProjection.vote).count v)

/-- The key of `max` : the count, then the generation, then the digest. -/
def countKey (item : (ℕ × String) × ℕ) : ℕ ×ₗ ℕ ×ₗ String :=
  toLex (item.2, toLex (item.1.1, item.1.2))

def highestGeneration (l : List ReplicaProjection) : ℕ :=
  (l.map ReplicaProjection.generation).foldr max 0

def assessQuorum (observations : List ReplicaProjection) (u : ReplicaUniverse) :
    QuorumAssessment :=
  let coverage := u.coverage (observations.map ReplicaProjection.replicaId)
  if observations.length < u.quorumSize then
    ⟨.partialVisibility, "UNKNOWN", coverage, none, none, none, []⟩
  else
    let highest := highestGeneration observations
    let highestDigests := ((observations.filter fun o => o.generation = highest).map
      ReplicaProjection.projectionDigest).dedup
    if highestDigests.length > 1 then
      ⟨.splitBrain, "BLOCKED", coverage, some highest, none, none, []⟩
    else
      match (voteCounts observations).argmax countKey with
      -- a quorum is at least one observation, so `max` has an argument
      | none => ⟨.noQuorum, "UNKNOWN", coverage, some highest, none, none, []⟩
      | some ((generation, digest), count) =>
        let agreeing := ((observations.filter fun o => o.vote = (generation, digest)).map
          ReplicaProjection.replicaId).insertionSort (· ≤ ·)
        if count < u.quorumSize then
          ⟨.noQuorum, "UNKNOWN", coverage, some highest, none, none, []⟩
        else if generation < highest then
          ⟨.staleMajority, "UNKNOWN", coverage, some highest, some generation, some digest, agreeing⟩
        else
          ⟨.healthy, "PARTIAL_ALIVE", coverage, some highest, some generation, some digest,
            agreeing⟩

/-- The answer HEALTHY with this generation and digest. -/
def QuorumAssessment.Healthy (a : QuorumAssessment) (generation : ℕ) (digest : String) : Prop :=
  a.state = .healthy ∧ a.selectedGeneration = some generation ∧
    a.selectedProjectionDigest = some digest

/-! ## What admission gives -/

/-- Observations of different replicas of the universe. -/
structure OncePerReplica (u : ReplicaUniverse) (l : List ReplicaProjection) : Prop where
  within : ∀ o ∈ l, o.replicaId ∈ u.replicaIds
  once : (l.map ReplicaProjection.replicaId).Nodup

section Admission

variable {subject semanticDigest : String} {u : ReplicaUniverse} {window : ObservationWindow}
  {now : PyDatetime}

/-- An observation that admission has nothing to say against. -/
structure Passes (subject semanticDigest : String) (u : ReplicaUniverse)
    (window : ObservationWindow) (now : PyDatetime) (o : ReplicaProjection) : Prop where
  subject_eq : o.subject = subject
  semantic_eq : o.semanticDigest = semanticDigest
  within : o.replicaId ∈ u.replicaIds
  past : o.observedAt.instant ≤ now.instant
  in_window : window.contains o.observedAt = true

theorem admitObservation_eq_ok {s t : List String × List ReplicaProjection}
    {o : ReplicaProjection} :
    admitObservation subject semanticDigest u window now s o = .ok t ↔
      Passes subject semanticDigest u window now o ∧ o.replicaId ∉ s.1 ∧
        t = (o.replicaId :: s.1, s.2 ++ [o]) := by
  constructor
  · intro h
    unfold admitObservation at h
    split_ifs at h with h₁ h₂ h₃ hnew h₄ h₅
    exact ⟨⟨not_not.mp h₁, not_not.mp h₂, h₃, not_lt.mp h₄,
      Bool.eq_true_of_not_eq_false h₅⟩, hnew, (Except.ok.inj h).symm⟩
  · rintro ⟨⟨h₁, h₂, h₃, h₄, h₅⟩, hnew, rfl⟩
    simp [admitObservation, h₁, h₂, h₃, not_lt.mpr h₄, h₅, hnew, pure, Except.pure]

/-- The loop admits exactly the observations that pass, each replica once. -/
theorem foldlM_admitObservation_eq_ok {l : List ReplicaProjection} :
    ∀ {s t : List String × List ReplicaProjection},
      l.foldlM (admitObservation subject semanticDigest u window now) s = .ok t ↔
        (∀ o ∈ l, Passes subject semanticDigest u window now o) ∧
          (l.map ReplicaProjection.replicaId).Nodup ∧ (∀ o ∈ l, o.replicaId ∉ s.1) ∧
          t = ((l.map ReplicaProjection.replicaId).reverse ++ s.1, s.2 ++ l) := by
  induction l with
  | nil => intro s t; simp [pure, Except.pure, eq_comm]
  | cons o l ih =>
    intro s t
    rw [List.foldlM_cons, Fallible.bind_eq_ok]
    constructor
    · rintro ⟨s', hs', ht⟩
      obtain ⟨hpass, hnew, rfl⟩ := admitObservation_eq_ok.mp hs'
      obtain ⟨hall, hnodup, hfresh, rfl⟩ := ih.mp ht
      refine ⟨List.forall_mem_cons.mpr ⟨hpass, hall⟩, ?_, ?_, by simp⟩
      · rw [List.map_cons, List.nodup_cons]
        refine ⟨fun hmem => ?_, hnodup⟩
        obtain ⟨o', ho', heq⟩ := List.mem_map.mp hmem
        exact hfresh o' ho' (heq ▸ List.mem_cons_self)
      · exact List.forall_mem_cons.mpr ⟨hnew, fun o' ho' h =>
          hfresh o' ho' (List.mem_cons_of_mem _ h)⟩
    · rintro ⟨hall, hnodup, hfresh, rfl⟩
      obtain ⟨hpass, hall⟩ := List.forall_mem_cons.mp hall
      obtain ⟨hnew, hfresh⟩ := List.forall_mem_cons.mp hfresh
      obtain ⟨hhead, hnodup⟩ := List.nodup_cons.mp hnodup
      refine ⟨_, admitObservation_eq_ok.mpr ⟨hpass, hnew, rfl⟩, ih.mpr ⟨hall, hnodup, ?_, by simp⟩⟩
      intro o' ho' h
      rcases List.mem_cons.mp h with h | h
      · exact hhead (h ▸ List.mem_map_of_mem ho')
      · exact hfresh o' ho' h

theorem admitObservations_eq_ok {observations l : List ReplicaProjection} {now : Datetime} :
    admitObservations subject semanticDigest u window observations now = .ok l ↔
      ∃ t, now = .aware t ∧ (∀ o ∈ observations, Passes subject semanticDigest u window t o) ∧
        (observations.map ReplicaProjection.replicaId).Nodup ∧ l = sortReplicas observations := by
  cases now with
  | naive _ => simp [admitObservations, throw, throwThe, MonadExceptOf.throw]
  | aware t =>
    rw [admitObservations, Fallible.bind_eq_ok]
    constructor
    · rintro ⟨s, hs, hl⟩
      obtain ⟨hall, hnodup, -, rfl⟩ := foldlM_admitObservation_eq_ok.mp hs
      exact ⟨t, rfl, hall, hnodup, by simpa using (Except.ok.inj hl).symm⟩
    · rintro ⟨t', ht, hall, hnodup, rfl⟩
      obtain rfl := Datetime.aware.inj ht
      exact ⟨_, foldlM_admitObservation_eq_ok.mpr ⟨hall, hnodup, by simp, rfl⟩, by simp; rfl⟩

theorem sortReplicas_perm (l : List ReplicaProjection) : (sortReplicas l).Perm l :=
  List.perm_insertionSort _ l

/-- Replicas that differ are sorted in one way. -/
theorem sortReplicas_eq_of_perm {l l' : List ReplicaProjection}
    (hnodup : (l.map ReplicaProjection.replicaId).Nodup) (h : l.Perm l') :
    sortReplicas l = sortReplicas l' := by
  have hsorted (l : List ReplicaProjection) :
      (sortReplicas l).Pairwise fun a b => a.replicaId ≤ b.replicaId :=
    List.pairwise_insertionSort _ l
  refine List.Perm.eq_of_pairwise (fun a b ha hb hab hba => ?_) (hsorted l) (hsorted l')
    ((sortReplicas_perm l).trans (h.trans (sortReplicas_perm l').symm))
  have ha := (sortReplicas_perm l).mem_iff.mp ha
  have hb := h.mem_iff.mpr ((sortReplicas_perm l').mem_iff.mp hb)
  exact List.inj_on_of_nodup_map hnodup ha hb (le_antisymm hab hba)

/-- The order in which the observations come does not matter to admission. -/
theorem admitObservations_perm {observations observations' l : List ReplicaProjection}
    {now : Datetime} (hperm : observations'.Perm observations)
    (h : admitObservations subject semanticDigest u window observations now = .ok l) :
    admitObservations subject semanticDigest u window observations' now = .ok l := by
  obtain ⟨t, ht, hall, hnodup, rfl⟩ := admitObservations_eq_ok.mp h
  exact admitObservations_eq_ok.mpr ⟨t, ht, fun o ho => hall o (hperm.mem_iff.mp ho),
    (hperm.map ReplicaProjection.replicaId).nodup_iff.mpr hnodup,
    sortReplicas_eq_of_perm hnodup hperm.symm⟩

theorem oncePerReplica_of_admit {observations l : List ReplicaProjection} {now : Datetime}
    (h : admitObservations subject semanticDigest u window observations now = .ok l) :
    OncePerReplica u l := by
  obtain ⟨t, -, hall, hnodup, rfl⟩ := admitObservations_eq_ok.mp h
  have hperm := sortReplicas_perm observations
  exact ⟨fun o ho => (hall o (hperm.mem_iff.mp ho)).within,
    (hperm.map ReplicaProjection.replicaId).nodup_iff.mpr hnodup⟩

end Admission

/-! ## Votes -/

theorem argmax_eq_of_perm {α β : Type} [LinearOrder β] {f : α → β} (hf : Function.Injective f)
    {l l' : List α} (h : l.Perm l') : l.argmax f = l'.argmax f := by
  cases hm : l.argmax f with
  | none =>
    rw [List.argmax_eq_none] at hm
    subst hm
    rw [h.symm.eq_nil, List.argmax_nil]
  | some m =>
    have hmem : m ∈ l' := h.mem_iff.mp (List.argmax_mem hm)
    cases hm' : l'.argmax f with
    | none =>
      rw [List.argmax_eq_none.mp hm'] at hmem
      exact absurd hmem (List.not_mem_nil)
    | some m' =>
      have hle := List.le_of_mem_argmax hmem hm'
      have hge := List.le_of_mem_argmax (h.mem_iff.mpr (List.argmax_mem hm')) hm
      exact congrArg some (hf (le_antisymm hge hle)).symm

theorem countKey_injective : Function.Injective countKey := by
  rintro ⟨⟨g, d⟩, c⟩ ⟨⟨g', d'⟩, c'⟩ h
  simpa [countKey, and_assoc, and_comm] using h

theorem voteCounts_perm {l l' : List ReplicaProjection} (h : l'.Perm l) :
    (voteCounts l').Perm (voteCounts l) := by
  have hvotes := h.map ReplicaProjection.vote
  have hcount : ∀ v, (l'.map ReplicaProjection.vote).count v =
      (l.map ReplicaProjection.vote).count v := fun v => hvotes.count_eq v
  simp only [voteCounts, hcount]
  exact (hvotes.dedup).map _

theorem mem_voteCounts {l : List ReplicaProjection} {v : ℕ × String} {n : ℕ} :
    (v, n) ∈ voteCounts l ↔
      v ∈ l.map ReplicaProjection.vote ∧ n = (l.map ReplicaProjection.vote).count v := by
  simp only [voteCounts, List.mem_map, List.mem_dedup, Prod.mk.injEq]
  constructor
  · rintro ⟨w, hw, rfl, rfl⟩
    exact ⟨hw, rfl⟩
  · rintro ⟨hv, rfl⟩
    exact ⟨v, hv, rfl, rfl⟩

theorem le_highestGeneration {l : List ReplicaProjection} {o : ReplicaProjection} (ho : o ∈ l) :
    o.generation ≤ highestGeneration l := by
  induction l with
  | nil => cases ho
  | cons o' l ih =>
    rcases List.mem_cons.mp ho with rfl | ho
    · exact le_max_left ..
    · exact (ih ho).trans (le_max_right ..)

theorem highestGeneration_eq {l : List ReplicaProjection} {o : ReplicaProjection} (ho : o ∈ l)
    (h : ∀ o' ∈ l, o'.generation ≤ o.generation) : highestGeneration l = o.generation := by
  refine le_antisymm ?_ (le_highestGeneration ho)
  clear ho
  induction l with
  | nil => exact Nat.zero_le _
  | cons o' l ih =>
    exact max_le (h o' List.mem_cons_self) (ih fun o'' ho'' => h o'' (List.mem_cons_of_mem _ ho''))

/-- The order of the observations does not matter to the assessment. -/
theorem assessQuorum_perm {l l' : List ReplicaProjection} (u : ReplicaUniverse) (h : l'.Perm l) :
    assessQuorum l' u = assessQuorum l u := by
  have hcoverage : u.coverage (l'.map ReplicaProjection.replicaId) =
      u.coverage (l.map ReplicaProjection.replicaId) := by
    have hmem : ∀ id, id ∈ l'.map ReplicaProjection.replicaId ↔
        id ∈ l.map ReplicaProjection.replicaId :=
      fun id => (h.map ReplicaProjection.replicaId).mem_iff
    simp only [ReplicaUniverse.coverage, hmem]
  have hhighest : highestGeneration l' = highestGeneration l :=
    (h.map ReplicaProjection.generation).foldr_eq 0
  have hdigests : ∀ g, ((l'.filter fun o => o.generation = g).map
      ReplicaProjection.projectionDigest).dedup.length =
      ((l.filter fun o => o.generation = g).map ReplicaProjection.projectionDigest).dedup.length :=
    fun g => ((h.filter _).map _).dedup.length_eq
  have hagreeing : ∀ v, ((l'.filter fun o => o.vote = v).map
      ReplicaProjection.replicaId).insertionSort (· ≤ ·) =
      ((l.filter fun o => o.vote = v).map ReplicaProjection.replicaId).insertionSort (· ≤ ·) :=
    fun v => List.Perm.eq_of_pairwise (fun _ _ _ _ => le_antisymm)
      (List.pairwise_insertionSort _ _) (List.pairwise_insertionSort _ _)
      ((List.perm_insertionSort _ _).trans
        (((h.filter _).map _).trans (List.perm_insertionSort _ _).symm))
  simp only [assessQuorum, hcoverage, h.length_eq, hhighest, hdigests, hagreeing,
    argmax_eq_of_perm countKey_injective (voteCounts_perm h)]

/-! ## Majorities -/

/-- The replicas of the universe that were observed with this vote. -/
def voters (u : ReplicaUniverse) (l : List ReplicaProjection) (v : ℕ × String) : List String :=
  u.replicaIds.filter fun id => ∃ o ∈ l, o.replicaId = id ∧ o.vote = v

theorem mem_voters {u : ReplicaUniverse} {l : List ReplicaProjection} {v : ℕ × String}
    {id : String} :
    id ∈ voters u l v ↔ id ∈ u.replicaIds ∧ ∃ o ∈ l, o.replicaId = id ∧ o.vote = v := by
  simp [voters]

/-- The generation is the highest observed, only this digest is observed at it, and a strict
majority of the universe's replicas are observed with both. -/
structure MajorityAt (u : ReplicaUniverse) (l : List ReplicaProjection) (generation : ℕ)
    (digest : String) : Prop where
  observed : ∃ o ∈ l, o.generation = generation
  highest : ∀ o ∈ l, o.generation ≤ generation
  sole : ∀ o ∈ l, o.generation = generation → o.projectionDigest = digest
  majority : u.replicaIds.length < 2 * (voters u l (generation, digest)).length

theorem dedup_length_le_one_iff {α : Type} [DecidableEq α] {l : List α} :
    l.dedup.length ≤ 1 ↔ ∀ a ∈ l, ∀ b ∈ l, a = b := by
  constructor
  · intro h a ha b hb
    by_contra hne
    have hsub : [a, b] ⊆ l.dedup := by simp [ha, hb]
    have := (List.subperm_of_subset (by simpa using hne) hsub).length_le
    simp only [List.length_cons, List.length_nil] at this
    omega
  · intro h
    cases l with
    | nil => simp
    | cons a l =>
      have hsub : (a :: l).dedup ⊆ [a] := fun b hb =>
        List.mem_singleton.mpr (h b (List.mem_dedup.mp hb) a List.mem_cons_self)
      exact (List.subperm_of_subset (List.nodup_dedup _) hsub).length_le

section Majority

variable {u : ReplicaUniverse} {l l' : List ReplicaProjection} {v w : ℕ × String}

/-- More voters together than replicas have one in common. -/
theorem voters_meet (h : u.replicaIds.length < (voters u l v).length + (voters u l' w).length) :
    ∃ id, id ∈ voters u l v ∧ id ∈ voters u l' w := by
  have hcard (l : List ReplicaProjection) (v : ℕ × String) :
      (voters u l v).toFinset.card = (voters u l v).length :=
    List.toFinset_card_of_nodup (u.ids_nodup.filter _)
  have hsubset (l : List ReplicaProjection) (v : ℕ × String) :
      (voters u l v).toFinset ⊆ u.replicaIds.toFinset := fun id hid =>
    List.mem_toFinset.mpr (mem_voters.mp (List.mem_toFinset.mp hid)).1
  obtain ⟨id, hid⟩ := Finset.inter_nonempty_of_card_lt_card_add_card (hsubset l v) (hsubset l' w)
    (by rwa [hcard, hcard, List.toFinset_card_of_nodup u.ids_nodup])
  obtain ⟨hv, hw⟩ := Finset.mem_inter.mp hid
  exact ⟨id, List.mem_toFinset.mp hv, List.mem_toFinset.mp hw⟩

namespace OncePerReplica

theorem eq_of_replicaId (h : OncePerReplica u l) {o o' : ReplicaProjection} (ho : o ∈ l)
    (ho' : o' ∈ l) (heq : o.replicaId = o'.replicaId) : o = o' :=
  List.inj_on_of_nodup_map h.once ho ho' heq

/-- A vote is counted once for each of its voters. -/
theorem count_eq (h : OncePerReplica u l) :
    (l.map ReplicaProjection.vote).count v = (voters u l v).length := by
  have hperm : ((l.filter fun o => o.vote = v).map ReplicaProjection.replicaId).Perm
      (voters u l v) := by
    refine (List.perm_ext_iff_of_nodup ?_ (u.ids_nodup.filter _)).mpr fun id => ?_
    · exact h.once.sublist (List.filter_sublist.map _)
    · constructor
      · intro hid
        obtain ⟨o, ho, rfl⟩ := List.mem_map.mp hid
        obtain ⟨ho, hv⟩ := List.mem_filter.mp ho
        exact mem_voters.mpr ⟨h.within o ho, o, ho, rfl, by simpa using hv⟩
      · intro hid
        obtain ⟨-, o, ho, rfl, rfl⟩ := mem_voters.mp hid
        exact List.mem_map_of_mem (List.mem_filter.mpr ⟨ho, by simp⟩)
  rw [← hperm.length_eq, List.length_map, ← List.countP_eq_length_filter, List.count,
    List.countP_map]
  exact List.countP_congr fun o _ => by simp

theorem length_le (h : OncePerReplica u l) : l.length ≤ u.replicaIds.length := by
  rw [← List.length_map (f := ReplicaProjection.replicaId)]
  refine (List.subperm_of_subset h.once fun id hid => ?_).length_le
  obtain ⟨o, ho, rfl⟩ := List.mem_map.mp hid
  exact h.within o ho

theorem healthy_iff (h : OncePerReplica u l) {g : ℕ} {d : String} :
    (assessQuorum l u).Healthy g d ↔ MajorityAt u l g d := by
  constructor
  · intro ha
    unfold assessQuorum at ha
    simp only [QuorumAssessment.Healthy] at ha
    split_ifs at ha with hlength hdigests <;> try simp at ha
    split at ha
    · simp at ha
    rename_i generation digest count hmax
    split_ifs at ha with hcount hstale <;> simp at ha
    obtain ⟨rfl, rfl⟩ := ha
    obtain ⟨hvote, rfl⟩ := mem_voteCounts.mp (List.argmax_mem hmax)
    obtain ⟨o, ho, hov⟩ := List.mem_map.mp hvote
    obtain ⟨hog, hod⟩ := Prod.mk.inj hov
    have hhighest : highestGeneration l = generation :=
      le_antisymm (not_lt.mp hstale) (hog ▸ le_highestGeneration ho)
    rw [h.count_eq, ReplicaUniverse.quorumSize] at hcount
    refine ⟨⟨o, ho, hog⟩, fun o' ho' => hhighest ▸ le_highestGeneration ho', fun o' ho' hg => ?_,
      by omega⟩
    have hmem : ∀ o' ∈ l, o'.generation = generation → o'.projectionDigest ∈
        (l.filter fun o => o.generation = highestGeneration l).map
          ReplicaProjection.projectionDigest := fun o' ho' hg =>
      List.mem_map_of_mem (List.mem_filter.mpr ⟨ho', by simp [hg, hhighest]⟩)
    rw [← hod]
    exact (dedup_length_le_one_iff.mp (not_lt.mp hdigests)) _ (hmem o' ho' hg) _ (hmem o ho hog)
  · intro hm
    obtain ⟨o, ho, hog⟩ := hm.observed
    have hvote : o.vote = (g, d) := Prod.ext hog (hm.sole o ho hog)
    have hhighest : highestGeneration l = g :=
      (highestGeneration_eq ho fun o' ho' => hog ▸ hm.highest o' ho').trans hog
    have hmajority := hm.majority
    have hcount := h.count_eq (v := (g, d))
    have hsize : u.quorumSize ≤ (l.map ReplicaProjection.vote).count (g, d) := by
      rw [hcount, ReplicaUniverse.quorumSize]
      omega
    have hlength : u.quorumSize ≤ l.length :=
      hsize.trans (List.count_le_length.trans (List.length_map _).le)
    have hdigests : ((l.filter fun o => o.generation = highestGeneration l).map
        ReplicaProjection.projectionDigest).dedup.length ≤ 1 := by
      refine dedup_length_le_one_iff.mpr fun x hx y hy => ?_
      have hsole : ∀ x ∈ (l.filter fun o => o.generation = highestGeneration l).map
          ReplicaProjection.projectionDigest, x = d := by
        intro x hx
        obtain ⟨o', ho', rfl⟩ := List.mem_map.mp hx
        obtain ⟨ho', hg⟩ := List.mem_filter.mp ho'
        exact hm.sole o' ho' (by simpa [hhighest] using hg)
      rw [hsole x hx, hsole y hy]
    have hitem : ((g, d), (l.map ReplicaProjection.vote).count (g, d)) ∈ voteCounts l :=
      mem_voteCounts.mpr ⟨hvote ▸ List.mem_map_of_mem ho, rfl⟩
    obtain ⟨⟨⟨g', d'⟩, n⟩, hmax⟩ : ∃ m, (voteCounts l).argmax countKey = some m := by
      refine Option.ne_none_iff_exists'.mp fun hnone => ?_
      rw [List.argmax_eq_none.mp hnone] at hitem
      exact List.not_mem_nil hitem
    obtain ⟨-, rfl⟩ := mem_voteCounts.mp (List.argmax_mem hmax)
    have hn : (l.map ReplicaProjection.vote).count (g, d) ≤
        (l.map ReplicaProjection.vote).count (g', d') := by
      rcases Prod.Lex.toLex_le_toLex.mp (List.le_of_mem_argmax hitem hmax) with hlt | ⟨heq, -⟩
      · exact hlt.le
      · exact heq.le
    -- two votes with a majority have a voter in common
    have hmeet : u.replicaIds.length <
        (voters u l (g, d)).length + (voters u l (g', d')).length := by
      rw [hcount, h.count_eq] at hn
      omega
    obtain ⟨id, hv, hw⟩ := voters_meet hmeet
    obtain ⟨-, o₁, ho₁, hid₁, hv₁⟩ := mem_voters.mp hv
    obtain ⟨-, o₂, ho₂, hid₂, hv₂⟩ := mem_voters.mp hw
    obtain rfl := h.eq_of_replicaId ho₁ ho₂ (hid₁.trans hid₂.symm)
    obtain ⟨rfl, rfl⟩ := Prod.mk.inj (hv₁.symm.trans hv₂)
    rw [hhighest] at hdigests
    simp [assessQuorum, QuorumAssessment.Healthy, not_lt.mpr hlength, not_lt.mpr hdigests, hmax,
      not_lt.mpr hsize, hhighest]

end OncePerReplica

end Majority

/-! ## Quorum safety -/

/-- What `admit_observations` can return for a universe. -/
def AdmittedObservations (u : ReplicaUniverse) (l : List ReplicaProjection) : Prop :=
  ∃ subject semanticDigest window observations now,
    admitObservations subject semanticDigest u window observations now = .ok l

/-- HEALTHY is a strict majority on the highest generation, the order of the observations
does not matter, and healthy assessments of one generation agree where their common
replicas do. -/
theorem quorum_safety (u : ReplicaUniverse) (l : List ReplicaProjection)
    (h : AdmittedObservations u l) :
    (∀ generation digest, (assessQuorum l u).Healthy generation digest ↔
      MajorityAt u l generation digest) ∧
    (∀ l', l'.Perm l → assessQuorum l' u = assessQuorum l u) ∧
    (∀ subject semanticDigest window observations observations' now,
      observations'.Perm observations →
      admitObservations subject semanticDigest u window observations now = .ok l →
      admitObservations subject semanticDigest u window observations' now = .ok l) ∧
    ∀ l', AdmittedObservations u l' → ∀ generation digest digest',
      (assessQuorum l u).Healthy generation digest →
      (assessQuorum l' u).Healthy generation digest' →
      (∀ o ∈ l, ∀ o' ∈ l', o.replicaId = o'.replicaId → o.generation = generation →
        o'.generation = generation → o.projectionDigest = o'.projectionDigest) →
      digest = digest' := by
  obtain ⟨_, _, _, _, _, hadmit⟩ := h
  have honce := oncePerReplica_of_admit hadmit
  refine ⟨fun g d => honce.healthy_iff, fun l' => assessQuorum_perm u,
    fun _ _ _ _ _ _ hperm => admitObservations_perm hperm, ?_⟩
  rintro l' ⟨_, _, _, _, _, hadmit'⟩ g d d' hd hd' hagree
  have hm := honce.healthy_iff.mp hd
  have honce' := oncePerReplica_of_admit hadmit'
  have hm' := honce'.healthy_iff.mp hd'
  have hcount : u.replicaIds.length < (voters u l (g, d)).length + (voters u l' (g, d')).length := by
    have hmajority := hm.majority
    have hmajority' := hm'.majority
    omega
  obtain ⟨id, hv, hw⟩ := voters_meet hcount
  obtain ⟨-, o, ho, hid, hvote⟩ := mem_voters.mp hv
  obtain ⟨-, o', ho', hid', hvote'⟩ := mem_voters.mp hw
  obtain ⟨hg, rfl⟩ := Prod.mk.inj hvote
  obtain ⟨hg', rfl⟩ := Prod.mk.inj hvote'
  exact hagree o ho o' ho' (hid.trans hid'.symm) hg hg'

def threeReplicas : ReplicaUniverse where
  replicaIds := ["a", "b", "c"]
  ids_ne := by decide
  ids_nodup := by decide
  ids_named := by decide

def zeroDigest : String := String.ofList (List.replicate 64 '0')

theorem isHex64_zeroDigest : isHex64 zeroDigest = true := by decide

/-- Generation 2, seen at a replica. -/
def seenAt (replicaId : String) (h : replicaId ≠ "" ∧ '\n' ∉ replicaId.toList) :
    ReplicaProjection where
  subject := "gymact"
  replicaId := replicaId
  generation := 2
  semanticDigest := zeroDigest
  projectionDigest := zeroDigest
  observedAt := ⟨1, ""⟩
  replicaId_ok := h
  semanticDigest_ok := isHex64_zeroDigest
  projectionDigest_ok := isHex64_zeroDigest

/-- Two of three replicas. -/
def twoSeen : List ReplicaProjection := [seenAt "b" (by decide), seenAt "a" (by decide)]

theorem quorum_safety_sample :
    (assessQuorum (sortReplicas twoSeen) threeReplicas).Healthy 2 zeroDigest := by
  have hadmitted : AdmittedObservations threeReplicas (sortReplicas twoSeen) := by
    refine ⟨"gymact", zeroDigest, ⟨⟨0, ""⟩, ⟨2, ""⟩, by decide⟩, twoSeen, .aware ⟨1, ""⟩,
      admitObservations_eq_ok.mpr ⟨_, rfl, fun o ho => ?_, by decide, rfl⟩⟩
    rcases List.mem_pair.mp ho with rfl | rfl <;>
      exact ⟨rfl, rfl, by decide, le_rfl, by decide⟩
  have hperm := sortReplicas_perm twoSeen
  have hseen : ∀ o ∈ sortReplicas twoSeen, o.vote = (2, zeroDigest) := fun o ho => by
    rcases List.mem_pair.mp (hperm.mem_iff.mp ho) with rfl | rfl <;> rfl
  have hvoter : ∀ o ∈ twoSeen, o.replicaId ∈ voters threeReplicas (sortReplicas twoSeen)
      (2, zeroDigest) := fun o ho => mem_voters.mpr ⟨by
    rcases List.mem_pair.mp ho with rfl | rfl <;> decide,
    o, hperm.mem_iff.mpr ho, rfl, hseen o (hperm.mem_iff.mpr ho)⟩
  have htwo : ["b", "a"].Subperm (voters threeReplicas (sortReplicas twoSeen) (2, zeroDigest)) :=
    List.subperm_of_subset (by decide) fun id hid => by
      rcases List.mem_pair.mp hid with rfl | rfl
      · exact hvoter (seenAt "b" (by decide)) List.mem_cons_self
      · exact hvoter (seenAt "a" (by decide)) (by simp [twoSeen])
  refine ((quorum_safety threeReplicas _ hadmitted).1 2 zeroDigest).mpr
    ⟨⟨seenAt "b" (by decide), hperm.mem_iff.mpr List.mem_cons_self, rfl⟩,
      fun o ho => (congrArg Prod.fst (hseen o ho)).le, fun o ho _ => congrArg Prod.snd (hseen o ho),
      ?_⟩
  have := htwo.length_le
  simp only [threeReplicas, List.length_cons, List.length_nil] at this ⊢
  omega

end GymAct
