import Mathlib.Data.List.AList
import Mathlib.Data.String.Basic
import GymAct.Quorum
import GymAct.Undominated
import GymAct.Value

/-!
# Vector clocks and causal maxima

`clock.py` and `causality.py` of `explore_replicated_projection_quorum`. A clock counts zero where
it has no entry (`VectorClock.entry`), so that `compare` is the order of these functions and `join`
their supremum (`entry_join`).

`causal_maxima_exact` : the laws of that order, and that what is maximal in it is what
`causal_profile` lists.
-/

namespace GymAct

/-! ## `clock.py` -/

inductive ClockRelation
  | before | after | equal | concurrent
  deriving DecidableEq, Repr

/-- A clock of `from_dict` : its entries are those of a `dict`, sorted. -/
structure VectorClock where
  entries : AList fun _ : String => ℕ
  entries_ne : entries.entries ≠ []
  keys_named : "" ∉ entries.keys
  keys_sorted : entries.keys.Pairwise (· < ·)

instance : DecidableEq VectorClock := fun a b =>
  decidable_of_iff (a.entries.entries = b.entries.entries) ⟨fun h => by
    cases a
    cases b
    simpa using AList.ext h, fun h => h ▸ rfl⟩

/-- An `int`, of which `bool` is a subclass, that is not negative. -/
def clockValue : Value → Option ℕ
  | .int n => if n < 0 then none else some n.toNat
  | .bool b => some b.toNat
  | .null | .float _ | .str _ | .list _ | .dict _ => none

namespace VectorClock

/-- `sorted(values.items())`. -/
def sortedItems (values : AList fun _ : String => Value) : List (Σ _ : String, ℕ) :=
  (values.entries.map fun item => (⟨item.1, (clockValue item.2).getD 0⟩ : Σ _ : String, ℕ)).insertionSort
    fun a b => a.1 ≤ b.1

theorem sortedItems_perm (values : AList fun _ : String => Value) : (sortedItems values).Perm
    (values.entries.map fun item => ⟨item.1, (clockValue item.2).getD 0⟩) :=
  List.perm_insertionSort _ _

theorem keys_sortedItems_perm (values : AList fun _ : String => Value) :
    (sortedItems values).keys.Perm values.keys := by
  have h := (sortedItems_perm values).map Sigma.fst
  rwa [List.map_map] at h

theorem nodup_keys_sortedItems (values : AList fun _ : String => Value) :
    (sortedItems values).NodupKeys :=
  (keys_sortedItems_perm values).nodup_iff.mpr values.keys_nodup

theorem keys_sortedItems_pairwise (values : AList fun _ : String => Value) :
    (sortedItems values).keys.Pairwise (· < ·) := by
  have hle : (sortedItems values).keys.Pairwise (· ≤ ·) :=
    List.pairwise_map.mpr (List.pairwise_insertionSort _ _)
  exact (hle.and (nodup_keys_sortedItems values)).imp fun h => lt_of_le_of_ne h.1 h.2

/-- `from_dict`. -/
def fromDict (values : AList fun _ : String => Value) : Except QuorumRefusal VectorClock :=
  if hempty : values.entries = [] then throw ⟨"REFUSED_EMPTY_VECTOR_CLOCK", ""⟩
  else if hinvalid : ∃ item ∈ values.entries, item.1 = "" ∨ clockValue item.2 = none then
    throw ⟨"REFUSED_INVALID_VECTOR_CLOCK", ""⟩
  else
    pure
      { entries := ⟨sortedItems values, nodup_keys_sortedItems values⟩
        entries_ne := fun h => hempty (by
          have hperm := sortedItems_perm values
          rw [show sortedItems values = [] from h] at hperm
          exact List.map_eq_nil_iff.mp hperm.symm.eq_nil)
        keys_named := fun h => by
          obtain ⟨item, hitem, hkey⟩ :=
            List.mem_map.mp ((keys_sortedItems_perm values).mem_iff.mp h)
          exact hinvalid ⟨item, hitem, Or.inl hkey⟩
        keys_sorted := keys_sortedItems_pairwise values }

variable (a b c : VectorClock)

/-- `as_dict().get(key, 0)`. -/
def entry (key : String) : ℕ := (a.entries.lookup key).getD 0

/-- `set(left) | set(right)`. -/
def keysWith : List String := (a.entries.keys ++ b.entries.keys).dedup

def compare : ClockRelation :=
  let le := ∀ key ∈ a.keysWith b, a.entry key ≤ b.entry key
  let ge := ∀ key ∈ a.keysWith b, b.entry key ≤ a.entry key
  if le ∧ ge then .equal
  else if le then .before
  else if ge then .after
  else .concurrent

/-- The `dict` that `join` builds. -/
def joined : AList fun _ : String => Value :=
  ⟨(a.keysWith b).map fun key => ⟨key, .int (max (a.entry key) (b.entry key) : ℕ)⟩, by
    rw [List.NodupKeys, List.keys, List.map_map]
    exact (List.map_id' _).symm ▸ List.nodup_dedup (a.entries.keys ++ b.entries.keys)⟩

def join : Except QuorumRefusal VectorClock := fromDict (a.joined b)

variable {a b c}

/-! ## The order of the clocks -/

theorem mem_keysWith {key : String} : key ∈ a.keysWith b ↔ key ∈ a.entries ∨ key ∈ b.entries := by
  simp [keysWith, AList.mem_keys]

theorem entry_eq_zero {key : String} (h : key ∉ a.entries) : a.entry key = 0 := by
  rw [entry, AList.lookup_eq_none.mpr h]
  rfl

theorem entry_eq_iff {key : String} {value : ℕ} (hvalue : 0 < value) :
    a.entry key = value ↔ ⟨key, value⟩ ∈ a.entries.entries := by
  rw [← AList.mem_lookup_iff, entry]
  cases h : a.entries.lookup key with
  | none => simp [hvalue.ne]
  | some v => simp

theorem forall_keysWith : (∀ key ∈ a.keysWith b, a.entry key ≤ b.entry key) ↔ a.entry ≤ b.entry := by
  refine ⟨fun h key => ?_, fun h key _ => h key⟩
  by_cases hkey : key ∈ a.keysWith b
  · exact h key hkey
  · rw [entry_eq_zero fun ha => hkey (mem_keysWith.mpr (Or.inl ha))]
    exact Nat.zero_le _

theorem forall_keysWith' :
    (∀ key ∈ a.keysWith b, b.entry key ≤ a.entry key) ↔ b.entry ≤ a.entry := by
  rw [← forall_keysWith]
  simp only [mem_keysWith, or_comm]

/-- What `compare` answers, in the order of the functions. -/
inductive Compares (a b : VectorClock) : ClockRelation → Prop
  | equal : a.entry = b.entry → Compares a b .equal
  | before : a.entry < b.entry → Compares a b .before
  | after : b.entry < a.entry → Compares a b .after
  | concurrent : ¬a.entry ≤ b.entry → ¬b.entry ≤ a.entry → Compares a b .concurrent

theorem compares_compare (a b : VectorClock) : Compares a b (a.compare b) := by
  have hle := forall_keysWith (a := a) (b := b)
  have hge := forall_keysWith' (a := a) (b := b)
  unfold compare
  by_cases h : a.entry ≤ b.entry
  · by_cases h' : b.entry ≤ a.entry
    · rw [if_pos ⟨hle.mpr h, hge.mpr h'⟩]
      exact .equal (le_antisymm h h')
    · rw [if_neg fun hboth => h' (hge.mp hboth.2), if_pos (hle.mpr h)]
      exact .before (lt_of_le_not_ge h h')
  · rw [if_neg fun hboth => h (hle.mp hboth.1), if_neg fun hle' => h (hle.mp hle')]
    by_cases h' : b.entry ≤ a.entry
    · rw [if_pos (hge.mpr h')]
      exact .after (lt_of_le_not_ge h' h)
    · rw [if_neg fun hge' => h' (hge.mp hge')]
      exact .concurrent h h'

theorem compare_eq_equal : a.compare b = .equal ↔ a.entry = b.entry := by
  have h := compares_compare a b
  generalize a.compare b = relation at h
  cases h with
  | equal h => exact iff_of_true rfl h
  | before h => exact iff_of_false nofun h.ne
  | after h => exact iff_of_false nofun h.ne'
  | concurrent h _ => exact iff_of_false nofun fun heq => h heq.le

theorem compare_eq_before : a.compare b = .before ↔ a.entry < b.entry := by
  have h := compares_compare a b
  generalize a.compare b = relation at h
  cases h with
  | equal h => exact iff_of_false nofun fun hlt => hlt.ne h
  | before h => exact iff_of_true rfl h
  | after h => exact iff_of_false nofun h.not_gt
  | concurrent h _ => exact iff_of_false nofun fun hlt => h hlt.le

theorem compare_eq_concurrent :
    a.compare b = .concurrent ↔ ¬a.entry ≤ b.entry ∧ ¬b.entry ≤ a.entry := by
  have h := compares_compare a b
  generalize a.compare b = relation at h
  cases h with
  | equal h => exact iff_of_false nofun fun hne => hne.1 h.le
  | before h => exact iff_of_false nofun fun hne => hne.1 h.le
  | after h => exact iff_of_false nofun fun hne => hne.2 h.le
  | concurrent h h' => exact iff_of_true rfl ⟨h, h'⟩

/-- Before, or equal. -/
def Below (a b : VectorClock) : Prop := a.compare b = .before ∨ a.compare b = .equal

theorem below_iff : Below a b ↔ a.entry ≤ b.entry := by
  rw [Below, compare_eq_before, compare_eq_equal, le_iff_lt_or_eq]

/-! ## The supremum -/

theorem lookup_sortedItems {values : AList fun _ : String => Value} {clock : VectorClock}
    (h : fromDict values = .ok clock) (key : String) :
    clock.entry key = ((values.lookup key).bind clockValue).getD 0 := by
  unfold fromDict at h
  split at h
  · cases h
  split at h
  · cases h
  cases h
  have hmap : (AList.mk (sortedItems values) (nodup_keys_sortedItems values)).lookup key =
      (values.lookup key).map fun value => (clockValue value).getD 0 :=
    (List.perm_dlookup key (nodup_keys_sortedItems values) (sortedItems_perm values)).trans
      (List.dlookup_map₂ (f := fun _ value => (clockValue value).getD 0) key)
  rw [entry, hmap]
  cases values.lookup key <;> rfl

theorem lookup_joined (key : String) : (a.joined b).lookup key =
    if key ∈ a.keysWith b then some (.int (max (a.entry key) (b.entry key) : ℕ)) else none := by
  split
  · next hkey => exact AList.mem_lookup_iff.mpr (List.mem_map.mpr ⟨key, hkey, rfl⟩)
  · next hkey =>
    refine AList.lookup_eq_none.mpr fun h => hkey ?_
    obtain ⟨item, hitem, rfl⟩ := List.mem_map.mp (AList.mem_keys.mp h)
    obtain ⟨key, hmem, rfl⟩ := List.mem_map.mp hitem
    exact hmem

theorem clockValue_natCast (n : ℕ) : clockValue (.int n) = some n := by
  simp [clockValue, Int.natCast_nonneg]

/-- `join` raises nothing, and is the supremum. -/
theorem exists_join (a b : VectorClock) :
    ∃ clock, a.join b = .ok clock ∧ clock.entry = a.entry ⊔ b.entry := by
  have hempty : (a.joined b).entries ≠ [] := by
    obtain ⟨item, hitem⟩ := List.exists_mem_of_ne_nil _ a.entries_ne
    refine List.ne_nil_of_mem (List.mem_map.mpr ⟨item.1, mem_keysWith.mpr (Or.inl ?_), rfl⟩)
    exact AList.mem_keys.mpr (List.mem_map_of_mem hitem)
  have hvalid : ¬∃ item ∈ (a.joined b).entries, item.1 = "" ∨ clockValue item.2 = none := by
    rintro ⟨item, hitem, hbad⟩
    obtain ⟨key, hkey, rfl⟩ := List.mem_map.mp hitem
    rcases hbad with rfl | hbad
    · rcases mem_keysWith.mp hkey with h | h
      · exact a.keys_named (AList.mem_keys.mp h)
      · exact b.keys_named (AList.mem_keys.mp h)
    · rw [clockValue_natCast] at hbad
      cases hbad
  obtain ⟨clock, hclock⟩ : ∃ clock, a.join b = .ok clock := by
    rw [join, fromDict, dif_neg hempty, dif_neg hvalid]
    exact ⟨_, rfl⟩
  refine ⟨clock, hclock, funext fun key => ?_⟩
  rw [lookup_sortedItems hclock, lookup_joined]
  by_cases hkey : key ∈ a.keysWith b
  · rw [if_pos hkey]
    exact congrArg (Option.getD · 0) (clockValue_natCast _)
  · rw [mem_keysWith, not_or] at hkey
    simp [mem_keysWith, hkey, entry_eq_zero]

theorem entry_join {clock : VectorClock} (h : a.join b = .ok clock) :
    clock.entry = a.entry ⊔ b.entry := by
  obtain ⟨clock', h', hentry⟩ := exists_join a b
  cases h.symm.trans h'
  exact hentry

/-! ## The laws -/

/-- The order that `compare` tells, in which clocks that are below each other differ in entries of
zero only. -/
structure OrderLaws : Prop where
  refl : ∀ a, Below a a
  trans : ∀ a b c, Below a b → Below b c → Below a c
  antisymm : ∀ a b : VectorClock, Below a b → Below b a → ∀ key value, 0 < value →
    ((⟨key, value⟩ : Σ _ : String, ℕ) ∈ a.entries.entries ↔ ⟨key, value⟩ ∈ b.entries.entries)
  concurrent_iff : ∀ a b : VectorClock, a.compare b = .concurrent ↔ ¬Below a b ∧ ¬Below b a

theorem orderLaws : OrderLaws where
  refl := fun a => below_iff.mpr le_rfl
  trans := fun a b c hab hbc => below_iff.mpr ((below_iff.mp hab).trans (below_iff.mp hbc))
  antisymm := fun a b hab hba key value hvalue => by
    have heq : a.entry = b.entry := le_antisymm (below_iff.mp hab) (below_iff.mp hba)
    rw [← entry_eq_iff hvalue, ← entry_eq_iff hvalue, heq]
  concurrent_iff := fun a b => by
    rw [compare_eq_concurrent, below_iff, below_iff]

/-- `join` answers, with the least upper bound. -/
structure JoinLaws : Prop where
  lub : ∀ a b : VectorClock, ∃ ab, a.join b = .ok ab ∧ Below a ab ∧ Below b ab ∧
    ∀ c, Below a c → Below b c → Below ab c
  assoc : ∀ a b c ab bc : VectorClock, a.join b = .ok ab → b.join c = .ok bc →
    ∃ left right, ab.join c = .ok left ∧ a.join bc = .ok right ∧ left.compare right = .equal
  comm : ∀ a b ab ba : VectorClock, a.join b = .ok ab → b.join a = .ok ba → ab.compare ba = .equal
  idem : ∀ a aa : VectorClock, a.join a = .ok aa → aa.compare a = .equal

theorem joinLaws : JoinLaws where
  lub := fun a b => by
    obtain ⟨ab, hab, hentry⟩ := exists_join a b
    refine ⟨ab, hab, ?_, ?_, fun c hac hbc => ?_⟩ <;> rw [below_iff, hentry]
    · exact le_sup_left
    · exact le_sup_right
    · exact sup_le (below_iff.mp hac) (below_iff.mp hbc)
  assoc := fun a b c ab bc hab hbc => by
    obtain ⟨left, hleft, hleft'⟩ := exists_join ab c
    obtain ⟨right, hright, hright'⟩ := exists_join a bc
    refine ⟨left, right, hleft, hright, compare_eq_equal.mpr ?_⟩
    rw [hleft', hright', entry_join hab, entry_join hbc, sup_assoc]
  comm := fun a b ab ba hab hba => compare_eq_equal.mpr (by
    rw [entry_join hab, entry_join hba, sup_comm])
  idem := fun a aa haa => compare_eq_equal.mpr (by rw [entry_join haa, sup_idem])

end VectorClock

/-! ## `causality.py` -/

inductive Representation
  | rdfTerm | ashProjection | wasmCarrier | canonicalJson
  deriving DecidableEq, Repr

def Representation.value : Representation → String
  | rdfTerm => "RDF_TERM"
  | ashProjection => "ASH_PROJECTION"
  | wasmCarrier => "WASM_CARRIER"
  | canonicalJson => "CANONICAL_JSON"

/-- A projection with what neither admission nor the assessment reads. -/
structure ClockedProjection extends ReplicaProjection where
  representation : Representation
  clock : VectorClock
  deriving DecidableEq

structure CausalProfile where
  maximalReplicaIds : List String := []
  concurrentPairs : ℕ := 0
  totalPairs : ℕ := 0
  deriving DecidableEq, Repr

def CausalProfile.concurrencyRatio (profile : CausalProfile) : ℚ :=
  if profile.totalPairs = 0 then 0 else profile.concurrentPairs / profile.totalPairs

/-- `left` is before `right`, its clock told by `compare`. -/
def IsBefore (left right : ClockedProjection) : Prop :=
  left.clock.compare right.clock = .before

instance : DecidableRel IsBefore := fun _ _ => decEq _ _

/-- The loop of `causal_profile`. What equals `left` has its clock, so `is` is `=` here. -/
def profileLoop (observations : List ClockedProjection) :
    List ClockedProjection → CausalProfile → CausalProfile
  | [], s => s
  | left :: later, s =>
    let dominated := ∃ right ∈ observations, left ≠ right ∧ IsBefore left right
    profileLoop observations later
      { maximalReplicaIds :=
          if dominated then s.maximalReplicaIds else s.maximalReplicaIds ++ [left.replicaId]
        concurrentPairs := s.concurrentPairs +
          later.countP fun right => left.clock.compare right.clock = .concurrent
        totalPairs := s.totalPairs + later.length }

def causalProfile (observations : List ClockedProjection) : CausalProfile :=
  let s := profileLoop observations observations {}
  { s with maximalReplicaIds := s.maximalReplicaIds.insertionSort (· ≤ ·) }

theorem isBefore_iff {o o' : ClockedProjection} : IsBefore o o' ↔ o.clock.entry < o'.clock.entry :=
  VectorClock.compare_eq_before

instance : IsStrictOrder ClockedProjection fun o' o => IsBefore o o' where
  irrefl _ h := (isBefore_iff.mp h).ne rfl
  trans _ _ _ h h' := isBefore_iff.mpr ((isBefore_iff.mp h').trans (isBefore_iff.mp h))

open Undominated

theorem maximalReplicaIds_profileLoop {observations : List ClockedProjection} :
    ∀ {l : List ClockedProjection} {s : CausalProfile},
      (profileLoop observations l s).maximalReplicaIds = s.maximalReplicaIds ++
        (l.filter fun o => ¬∃ o' ∈ observations, IsBefore o o').map fun o => o.replicaId
  | [], s => by simp [profileLoop]
  | left :: later, s => by
    have hself : (∃ right ∈ observations, left ≠ right ∧ IsBefore left right) ↔
        ∃ right ∈ observations, IsBefore left right := by
      refine exists_congr fun right => and_congr_right fun _ => and_iff_right_of_imp ?_
      rintro hbefore rfl
      exact (isBefore_iff.mp hbefore).ne rfl
    rw [profileLoop, maximalReplicaIds_profileLoop]
    by_cases hdominated : ∃ right ∈ observations, IsBefore left right
    · rw [if_pos (hself.mpr hdominated), List.filter_cons_of_neg (by simpa using hdominated)]
    · rw [if_neg fun h => hdominated (hself.mp h), List.filter_cons_of_pos (by simpa using hdominated)]
      simp

/-- The causal maxima are the observations whose clock is before no other. -/
theorem mem_maximalReplicaIds {l : List ClockedProjection} {id : String} :
    id ∈ (causalProfile l).maximalReplicaIds ↔
      ∃ o ∈ undominated (fun o' o => IsBefore o o') l, o.replicaId = id := by
  rw [causalProfile]
  simp only [List.mem_insertionSort, maximalReplicaIds_profileLoop, List.nil_append, List.mem_map]
  rfl

/-- The order of clocks is one up to entries of zero, `join` is its supremum, and the causal maxima
of admitted observations are those that are before no other, of which there are some, and below
one of which every observation is. -/
theorem causal_maxima_exact (u : ReplicaUniverse) (l : List ClockedProjection)
    (hadmitted : AdmittedObservations u (l.map ClockedProjection.toReplicaProjection))
    (hne : l ≠ []) :
    VectorClock.OrderLaws ∧ VectorClock.JoinLaws ∧
      (∀ o ∈ l, o.replicaId ∈ (causalProfile l).maximalReplicaIds ↔
        ∀ o' ∈ l, o.clock.compare o'.clock ≠ .before) ∧
      (∀ id ∈ (causalProfile l).maximalReplicaIds, ∃ o ∈ l, o.replicaId = id) ∧
      (causalProfile l).maximalReplicaIds ≠ [] ∧
      ∀ o ∈ l, ∃ top ∈ l, top.replicaId ∈ (causalProfile l).maximalReplicaIds ∧
        VectorClock.Below o.clock top.clock := by
  obtain ⟨_, _, _, _, _, hadmit⟩ := hadmitted
  have hadmitted' := oncePerReplica_of_admit hadmit
  have honce := hadmitted'.once
  rw [List.map_map] at honce
  have hkept : ∀ o ∈ undominated (fun o' o => IsBefore o o') l,
      o ∈ l ∧ o.replicaId ∈ (causalProfile l).maximalReplicaIds := fun o ho =>
    ⟨(mem_undominated.mp ho).1, mem_maximalReplicaIds.mpr ⟨o, ho, rfl⟩⟩
  refine ⟨VectorClock.orderLaws, VectorClock.joinLaws, fun o ho => ?_, fun id hid => ?_, ?_,
    fun o ho => ?_⟩
  · rw [mem_maximalReplicaIds]
    constructor
    · rintro ⟨o', ho', hid⟩
      obtain ⟨hmem, hmax⟩ := mem_undominated.mp ho'
      obtain rfl := List.inj_on_of_nodup_map honce hmem ho hid
      exact hmax
    · exact fun hmax => ⟨o, mem_undominated.mpr ⟨ho, hmax⟩, rfl⟩
  · obtain ⟨o, ho, rfl⟩ := mem_maximalReplicaIds.mp hid
    exact ⟨o, (hkept o ho).1, rfl⟩
  · obtain ⟨o, ho⟩ := List.exists_mem_of_ne_nil _ (undominated_ne_nil
      (r := fun o' o => IsBefore o o') hne)
    exact List.ne_nil_of_mem (hkept o ho).2
  · by_cases hdominated : ∃ o' ∈ l, IsBefore o o'
    · obtain ⟨top, htop, hbefore⟩ := exists_kept_of_dominated
        (r := fun o' o => IsBefore o o') ho hdominated
      exact ⟨top, (hkept top htop).1, (hkept top htop).2, Or.inl hbefore⟩
    · have hmax : o ∈ undominated (fun o' o => IsBefore o o') l :=
        mem_undominated.mpr ⟨ho, fun o' ho' h => hdominated ⟨o', ho', h⟩⟩
      exact ⟨o, ho, (hkept o hmax).2, VectorClock.orderLaws.refl _⟩

/-- A clock of one replica. -/
def VectorClock.ofReplica (ticks : ℕ) : VectorClock where
  entries := AList.singleton "a" ticks
  entries_ne := List.cons_ne_nil _ _
  keys_named := by simp
  keys_sorted := List.pairwise_singleton _ _

def oneDigest : String := String.ofList (List.replicate 64 '1')

theorem isHex64_oneDigest : isHex64 oneDigest = true := by decide

theorem seen_a : "a" ≠ "" ∧ '\n' ∉ "a".toList := by decide

theorem seen_b : "b" ≠ "" ∧ '\n' ∉ "b".toList := by decide

/-- Generation 2 at two replicas, and generation 1 with a later clock at the third. -/
def overtaken : List ClockedProjection :=
  [{ seenAt "a" seen_a with representation := .canonicalJson, clock := .ofReplica 1 },
    { seenAt "b" seen_b with representation := .canonicalJson, clock := .ofReplica 1 },
    { seenAt "c" (by decide) with
      generation := 1
      projectionDigest := oneDigest
      projectionDigest_ok := isHex64_oneDigest
      representation := .canonicalJson
      clock := .ofReplica 2 }]

theorem admitted_overtaken :
    AdmittedObservations threeReplicas (overtaken.map ClockedProjection.toReplicaProjection) := by
  refine ⟨"gymact", zeroDigest, ⟨⟨0, ""⟩, ⟨2, ""⟩, by decide⟩,
    overtaken.map ClockedProjection.toReplicaProjection, .aware ⟨1, ""⟩,
    admitObservations_eq_ok.mpr ⟨_, rfl, fun o ho => ?_, by decide, rfl⟩⟩
  simp only [overtaken, List.map_cons, List.map_nil, List.mem_cons, List.not_mem_nil, or_false] at ho
  rcases ho with rfl | rfl | rfl <;> exact ⟨rfl, rfl, by decide, le_rfl, by decide⟩

theorem causal_maxima_overtaken :
    "c" ∈ (causalProfile overtaken).maximalReplicaIds ∧
      "a" ∉ (causalProfile overtaken).maximalReplicaIds := by
  obtain ⟨-, -, hmax, -⟩ :=
    causal_maxima_exact threeReplicas overtaken admitted_overtaken (List.cons_ne_nil _ _)
  constructor
  · exact (hmax (overtaken.getLast (by decide)) (by simp [overtaken])).mpr (by decide)
  · exact fun h => (hmax (overtaken.head (by decide)) (by simp [overtaken])).mp h _
      (List.getLast_mem (by decide)) (by decide)

end GymAct
