import Mathlib.Data.List.Flatten
import GymAct.Fallible
import GymAct.HarnessScores

/-!
# Cascades

`deduplicate_cascades` demotes, of the failures of one cascade, all but one of the highest rank
(`deduplicate_spec`). What it returns has one failure in each cascade, so that it has nothing to do
the second time. Where the rule ids of a cascade are distinct, the failure that is kept is told by
the verdicts alone, whatever their order (`failsOf_perm`).

With this, the order of the verdicts matters to the scores only where the exclusions read it :
`scores_order_free_iff`.
-/

namespace GymAct

namespace HarnessIf

open Grouping

variable {l l' : List RuleVerdict} {library : Library} {v : RuleVerdict}
  {item : RuleVerdict × ℕ} {k : String × String × ℕ × String} {i : ℕ}

/-! ## What is dropped -/

/-- Every rule is in the library. -/
def Known (l : List RuleVerdict) (library : Library) : Prop :=
  ∀ v ∈ l, library v.ruleId ≠ none

/-- The rank of a failure in its cascade, of a rule in the library. -/
def rank (library : Library) (v : RuleVerdict) : ℕ ×ₗ String :=
  toLex (((library v.ruleId).map fun rule => rule.severity.weight).getD 0, v.ruleId)

theorem severityKey_eq (h : library v.ruleId ≠ none) :
    severityKey library v = .ok (rank library v) := by
  obtain ⟨rule, hrule⟩ := Option.ne_none_iff_exists'.mp h
  simp only [severityKey, rank, hrule]
  rfl

theorem rank_injective {w : RuleVerdict} (h : rank library v = rank library w) :
    v.ruleId = w.ruleId :=
  (Prod.ext_iff.mp (toLex_inj.mp h)).2

/-- The indices that `dropDependents` demotes. -/
def dropsOf (library : Library) (group : Cascade) : List ℕ :=
  if group.2.length < 2 then []
  else
    match (group.2.map fun item => (rank library item.1, item.2)).argmax Prod.fst with
    | none => []
    | some keeper => (group.2.map Prod.snd).filter (· ≠ keeper.2)

theorem dropDependents_eq {group : Cascade} (h : ∀ item ∈ group.2, library item.1.ruleId ≠ none)
    (result : List RuleVerdict) : dropDependents library result group = .ok
      ((dropsOf library group).foldl (fun result index => result.modify index demote) result) := by
  have hkeyed : (group.2.mapM fun item =>
      (severityKey library item.1).map fun key => (key, item.2)) =
        .ok (group.2.map fun item => (rank library item.1, item.2)) :=
    Fallible.mapM_eq_ok fun item hitem => by rw [severityKey_eq (h item hitem)]; rfl
  unfold dropDependents dropsOf
  rw [hkeyed, Fallible.ok_bind]
  split
  · rfl
  · cases (group.2.map fun item => (rank library item.1, item.2)).argmax Prod.fst <;> rfl

/-- A group keeps one of its failures, of the highest rank. -/
theorem dropsOf_spec {group : Cascade} (hne : group.2 ≠ [])
    (hnodup : (group.2.map Prod.snd).Nodup) :
    ∃ keeper ∈ group.2, ∀ item ∈ group.2,
      (item.2 ∈ dropsOf library group ↔ item ≠ keeper) ∧
        rank library item.1 ≤ rank library keeper.1 := by
  unfold dropsOf
  split
  · next hlength =>
    obtain ⟨keeper, hone⟩ : ∃ keeper, group.2 = [keeper] :=
      List.length_eq_one_iff.mp (by have := List.length_pos_iff.mpr hne; omega)
    rw [hone]
    refine ⟨keeper, List.mem_singleton_self _, fun item hitem => ?_⟩
    obtain rfl := List.mem_singleton.mp hitem
    exact ⟨by simp, le_rfl⟩
  · split
    · next hnone =>
      exact absurd (List.map_eq_nil_iff.mp (List.argmax_eq_none.mp hnone)) hne
    · next best hbest =>
      obtain ⟨keeper, hkeeper, rfl⟩ := List.mem_map.mp (List.argmax_mem hbest)
      refine ⟨keeper, hkeeper, fun item hitem => ⟨?_, ?_⟩⟩
      · have hindex : item.2 = keeper.2 ↔ item = keeper :=
          ⟨fun h => List.inj_on_of_nodup_map hnodup hitem hkeeper h, fun h => h ▸ rfl⟩
        have hmem : item.2 ∈ group.2.map Prod.snd := List.mem_map_of_mem hitem
        rw [List.mem_filter, decide_eq_true_eq, and_iff_right hmem, Ne, hindex]
      · have hkeyed : (rank library item.1, item.2) ∈
            group.2.map fun item => (rank library item.1, item.2) := List.mem_map_of_mem hitem
        exact List.le_of_mem_argmax (f := Prod.fst) hkeyed hbest

theorem dropsOf_sublist (group : Cascade) :
    (dropsOf library group).Sublist (group.2.map Prod.snd) := by
  unfold dropsOf
  split
  · exact List.nil_sublist _
  · split
    · exact List.nil_sublist _
    · exact List.filter_sublist

/-- Each of the indices is changed once. -/
theorem getElem?_foldl_modify {f : RuleVerdict → RuleVerdict} : ∀ {indices : List ℕ}
    {result : List RuleVerdict}, indices.Nodup →
    (indices.foldl (fun result index => result.modify index f) result)[i]? =
      if i ∈ indices then result[i]?.map f else result[i]?
  | [], _, _ => by simp
  | index :: indices, result, hnodup => by
    obtain ⟨hindex, hnodup⟩ := List.nodup_cons.mp hnodup
    rw [List.foldl_cons, getElem?_foldl_modify hnodup, List.getElem?_modify]
    by_cases heq : index = i
    · subst heq
      simp [hindex]
    · have hne : i ≠ index := fun h => heq h.symm
      simp [heq, hne]

/-- What is left of the verdicts when some are demoted. -/
def demoteAt (dropped : List ℕ) (l : List RuleVerdict) : List RuleVerdict :=
  l.zipIdx.map fun item => if item.2 ∈ dropped then demote item.1 else item.1

theorem foldl_modify_eq {dropped : List ℕ} (hnodup : dropped.Nodup) (l : List RuleVerdict) :
    dropped.foldl (fun result index => result.modify index demote) l = demoteAt dropped l := by
  refine List.ext_getElem? fun i => ?_
  rw [getElem?_foldl_modify hnodup, demoteAt, List.getElem?_map, List.getElem?_zipIdx, zero_add]
  cases l[i]? with
  | none => simp
  | some v => by_cases hi : i ∈ dropped <;> simp [hi]

/-! ## What is kept -/

theorem cascade_isSome_iff : v.cascade.isSome = true ↔ ∃ k, v.cascade = some k :=
  Option.isSome_iff_exists

/-- The failures of a cascade, each with its index. -/
def membersOf (l : List RuleVerdict) (k : String × String × ℕ × String) :
    List (RuleVerdict × ℕ) :=
  l.zipIdx.filter fun item => item.1.cascade = some k

theorem mem_membersOf : item ∈ membersOf l k ↔ item ∈ l.zipIdx ∧ item.1.cascade = some k := by
  simp [membersOf]

theorem nodup_indices (l : List RuleVerdict) : (l.zipIdx.map Prod.snd).Nodup := by
  rw [List.zipIdx_map_snd]
  exact List.nodup_range' 1

/-- Each cascade is the failures of a key. -/
theorem mem_cascades {group : Cascade} (h : group ∈ cascades l) :
    ∃ k, group = (some k, membersOf l k) ∧ membersOf l k ≠ [] := by
  have hgroups : Groups (fun item : RuleVerdict × ℕ => item.1.cascade)
      (l.zipIdx.filter fun item => item.1.cascade.isSome) (cascades l) := groups_group _
  obtain ⟨item, hitem, hkey⟩ := List.mem_map.mp
    ((hgroups.mem_keys group.1).mp (List.mem_map_of_mem h))
  obtain ⟨k, hk⟩ := cascade_isSome_iff.mp (List.mem_filter.mp hitem).2
  have hone : group.1 = some k := hkey.symm.trans hk
  have hmembers : group.2 = membersOf l k := by
    rw [hgroups.eq_filter group h, hone, List.filter_filter, membersOf]
    refine List.filter_congr fun item _ => ?_
    cases item.1.cascade <;> simp
  have hmem : item ∈ membersOf l k := mem_membersOf.mpr ⟨(List.mem_filter.mp hitem).1, hk⟩
  exact ⟨k, Prod.ext hone hmembers, List.ne_nil_of_mem hmem⟩

theorem cascade_mem (h : membersOf l k ≠ []) : (some k, membersOf l k) ∈ cascades l := by
  obtain ⟨item, hitem⟩ := List.exists_mem_of_ne_nil _ h
  obtain ⟨hitem, hk⟩ := mem_membersOf.mp hitem
  have hmem : item ∈ l.zipIdx.filter fun item => item.1.cascade.isSome :=
    List.mem_filter.mpr ⟨hitem, by simp [hk]⟩
  have hgroup : (item.1.cascade, (l.zipIdx.filter fun item => item.1.cascade.isSome).filter
      fun other => other.1.cascade = item.1.cascade) ∈ cascades l := mem_group_of_mem hmem
  obtain ⟨k', heq, -⟩ := mem_cascades hgroup
  have hkey : k = k' := Option.some.inj (hk.symm.trans (Prod.ext_iff.mp heq).1)
  rw [hkey, ← heq]
  exact hgroup

/-- What `deduplicate_cascades` returns : in each cascade all but one failure of the highest rank
are demoted, and nothing else is. -/
structure Deduplicates (library : Library) (l : List RuleVerdict) (dropped : List ℕ) : Prop where
  run : deduplicateCascades l library = .ok (demoteAt dropped l)
  other : ∀ item ∈ l.zipIdx, item.1.cascade = none → item.2 ∉ dropped
  keeper : ∀ k, membersOf l k ≠ [] → ∃ keeper ∈ membersOf l k, ∀ item ∈ membersOf l k,
    (item.2 ∈ dropped ↔ item ≠ keeper) ∧ rank library item.1 ≤ rank library keeper.1

theorem deduplicate_spec (hlib : Known l library) : ∃ dropped, Deduplicates library l dropped := by
  have hmembers : ∀ group ∈ cascades l, ∀ item ∈ group.2, item ∈ l.zipIdx := fun group hg item h => by
    obtain ⟨k, rfl, -⟩ := mem_cascades hg
    exact (mem_membersOf.mp h).1
  have hknown : ∀ group ∈ cascades l, ∀ item ∈ group.2, library item.1.ruleId ≠ none :=
    fun group hg item h => hlib _ (List.fst_mem_of_mem_zipIdx (hmembers group hg item h))
  -- an index is dropped in the cascade of its failure only
  have hindices : ((cascades l).flatMap (dropsOf library)).Sublist
      ((cascades l).flatMap fun group => group.2.map Prod.snd) :=
    List.Sublist.flatMap_right _ fun group _ => dropsOf_sublist group
  have hnodup : ((cascades l).flatMap (dropsOf library)).Nodup := by
    refine hindices.nodup ?_
    rw [← List.map_flatMap]
    refine ((flatMap_group_perm _).map Prod.snd).nodup_iff.mpr ?_
    exact (nodup_indices l).sublist (List.filter_sublist.map _)
  have hdropped : ∀ item ∈ l.zipIdx, (item.2 ∈ (cascades l).flatMap (dropsOf library) ↔
      ∃ k, item.1.cascade = some k ∧ item.2 ∈ dropsOf library (some k, membersOf l k)) := by
    intro item hitem
    rw [List.mem_flatMap]
    constructor
    · rintro ⟨group, hg, hdrop⟩
      obtain ⟨member, hmember, hindex⟩ := List.mem_map.mp ((dropsOf_sublist group).subset hdrop)
      obtain ⟨k, rfl, -⟩ := mem_cascades hg
      obtain ⟨hmem, hk⟩ := mem_membersOf.mp hmember
      obtain rfl : member = item := List.inj_on_of_nodup_map (nodup_indices l) hmem hitem hindex
      exact ⟨k, hk, hdrop⟩
    · rintro ⟨k, hk, hdrop⟩
      exact ⟨_, cascade_mem (List.ne_nil_of_mem (mem_membersOf.mpr ⟨hitem, hk⟩)), hdrop⟩
  refine ⟨(cascades l).flatMap (dropsOf library), ⟨?_, fun item hitem hnone hdrop => ?_,
    fun k hne => ?_⟩⟩
  · rw [← foldl_modify_eq hnodup, List.foldl_flatMap]
    exact Fallible.foldlM_eq_ok fun group hg result => dropDependents_eq (hknown group hg) result
  · obtain ⟨k, hk, -⟩ := (hdropped item hitem).mp hdrop
    exact absurd (hnone.symm.trans hk) nofun
  · have hsub : ((membersOf l k).map Prod.snd).Nodup :=
      (nodup_indices l).sublist (List.filter_sublist.map _)
    let members : Cascade := (some k, membersOf l k)
    obtain ⟨keeper, hkeeper, hrest⟩ : ∃ keeper ∈ members.2, ∀ item ∈ members.2,
        (item.2 ∈ dropsOf library members ↔ item ≠ keeper) ∧
          rank library item.1 ≤ rank library keeper.1 := dropsOf_spec hne hsub
    refine ⟨keeper, hkeeper, fun item hitem => ⟨?_, (hrest item hitem).2⟩⟩
    obtain ⟨hmem, hk⟩ := mem_membersOf.mp hitem
    rw [← (hrest item hitem).1, hdropped item hmem]
    constructor
    · rintro ⟨k', hk', hdrop⟩
      obtain rfl : k = k' := Option.some.inj (hk.symm.trans hk')
      exact hdrop
    · exact fun hdrop => ⟨k, hk, hdrop⟩

/-! ## One failure in a cascade -/

@[simp] theorem demote_cascade (v : RuleVerdict) : (demote v).cascade = none := rfl

@[simp] theorem demote_status (v : RuleVerdict) : (demote v).status = .noOpportunity := rfl

@[simp] theorem demote_ruleId (v : RuleVerdict) : (demote v).ruleId = v.ruleId := rfl

theorem status_of_cascade (h : v.cascade = some k) : v.status = .fail := by
  unfold RuleVerdict.cascade at h
  split at h
  · assumption
  · cases h

/-- What is left, of a kind that nothing demoted is of. -/
theorem filter_demoteAt {p : RuleVerdict → Bool} (hp : ∀ v, p (demote v) = false)
    (dropped : List ℕ) (l : List RuleVerdict) : (demoteAt dropped l).filter p =
      (l.zipIdx.filter fun item => p item.1 ∧ item.2 ∉ dropped).map Prod.fst := by
  have hkept : (l.zipIdx.filter fun item =>
      p (if item.2 ∈ dropped then demote item.1 else item.1)) =
        l.zipIdx.filter fun item => p item.1 ∧ item.2 ∉ dropped := by
    refine List.filter_congr fun item _ => ?_
    by_cases hdrop : item.2 ∈ dropped <;> simp [hdrop, hp]
  rw [demoteAt, List.filter_map]
  refine (congrArg (List.map _) hkept).trans (List.map_congr_left fun item hitem => ?_)
  have hdrop := (of_decide_eq_true (List.mem_filter.mp hitem).2).2
  rw [if_neg hdrop]

theorem map_filter_zipIdx (p : RuleVerdict → Bool) (l : List RuleVerdict) :
    (l.zipIdx.filter fun item => p item.1).map Prod.fst = l.filter p := by
  conv_rhs => rw [← List.zipIdx_map_fst 0 l]
  rw [List.filter_map]
  rfl

theorem map_membersOf (l : List RuleVerdict) (k : String × String × ℕ × String) :
    (membersOf l k).map Prod.fst = l.filter fun v => v.cascade = some k :=
  map_filter_zipIdx (fun v => v.cascade = some k) l

theorem filter_cascade_demoteAt (dropped : List ℕ) (l : List RuleVerdict)
    (k : String × String × ℕ × String) :
    ((demoteAt dropped l).filter fun v => v.cascade = some k) =
      ((membersOf l k).filter fun item => item.2 ∉ dropped).map Prod.fst := by
  rw [filter_demoteAt fun v => by simp, membersOf, List.filter_filter]
  refine congrArg (List.map Prod.fst) (List.filter_congr fun item _ => ?_)
  simp [and_comm]

/-- One failure of the cascade is left. -/
theorem Deduplicates.one_fail {dropped : List ℕ} (h : Deduplicates library l dropped)
    (hne : membersOf l k ≠ []) :
    ((demoteAt dropped l).filter fun v => v.cascade = some k).length = 1 := by
  obtain ⟨keeper, hkeeper, hrest⟩ := h.keeper k hne
  have hkept : ((membersOf l k).filter fun item => item.2 ∉ dropped) =
      (membersOf l k).filter (· == keeper) := by
    refine List.filter_congr fun item hitem => ?_
    rw [Bool.eq_iff_iff, decide_eq_true_eq, beq_iff_eq, (hrest item hitem).1, not_not]
  have hnodup : (membersOf l k).Nodup :=
    (List.Nodup.of_map Prod.snd (nodup_indices l)).sublist List.filter_sublist
  rw [filter_cascade_demoteAt, List.length_map, hkept, ← List.countP_eq_length_filter]
  exact List.count_eq_one_of_mem hnodup hkeeper

theorem Deduplicates.at_most_one {dropped : List ℕ} (h : Deduplicates library l dropped)
    (k : String × String × ℕ × String) :
    ((demoteAt dropped l).filter fun v => v.cascade = some k).length ≤ 1 := by
  rcases eq_or_ne (membersOf l k) [] with hnil | hne
  · rw [filter_cascade_demoteAt, hnil]
    exact Nat.zero_le 1
  · exact (h.one_fail hne).le

/-- With at most one failure in each cascade, nothing is demoted. -/
theorem deduplicateCascades_of_one (hlib : Known l library)
    (hone : ∀ k, (l.filter fun v => v.cascade = some k).length ≤ 1) :
    deduplicateCascades l library = .ok l := by
  obtain ⟨dropped, h⟩ := deduplicate_spec hlib
  have hkept : ∀ item ∈ l.zipIdx, item.2 ∉ dropped := by
    intro item hitem
    cases hk : item.1.cascade with
    | none => exact h.other item hitem hk
    | some k =>
      have hmem : item ∈ membersOf l k := mem_membersOf.mpr ⟨hitem, hk⟩
      obtain ⟨keeper, hkeeper, hrest⟩ := h.keeper k (List.ne_nil_of_mem hmem)
      have hlength : (membersOf l k).length ≤ 1 := by
        rw [← List.length_map, map_membersOf]
        exact hone k
      have heq : item = keeper := by
        obtain ⟨only, honly⟩ := List.length_eq_one_iff.mp
          (hlength.antisymm (List.length_pos_of_mem hmem))
        rw [honly] at hmem hkeeper
        rw [List.mem_singleton.mp hmem, List.mem_singleton.mp hkeeper]
      exact fun hdrop => (hrest item hmem).1.mp hdrop heq
  have hsame : demoteAt dropped l = l := by
    conv_rhs => rw [← List.zipIdx_map_fst 0 l]
    exact List.map_congr_left fun item hitem => if_neg (hkept item hitem)
  rw [h.run, hsame]

theorem known_demoteAt (hlib : Known l library) (dropped : List ℕ) :
    Known (demoteAt dropped l) library := by
  intro v hv
  obtain ⟨item, hitem, rfl⟩ := List.mem_map.mp hv
  have hrule := hlib item.1 (List.fst_mem_of_mem_zipIdx hitem)
  split
  · exact hrule
  · exact hrule

/-! ## The failures, in any order -/

/-- The rule ids of each cascade are distinct. -/
def DistinctRules (l : List RuleVerdict) : Prop :=
  ∀ k, ((l.filter fun v => v.cascade = some k).map RuleVerdict.ruleId).Nodup

/-- A failure of no cascade, or of the highest rank in its own. -/
def KeepsFail (library : Library) (l : List RuleVerdict) (v : RuleVerdict) : Prop :=
  ∀ w ∈ l, w.cascade ≠ none → w.cascade = v.cascade → rank library w ≤ rank library v

instance : DecidablePred (KeepsFail library l) := fun _ => by unfold KeepsFail; infer_instance

/-- Where the rule ids of a cascade are distinct, the failures that are left are told by the
verdicts alone. -/
theorem Deduplicates.fails {dropped : List ℕ} (h : Deduplicates library l dropped)
    (hdistinct : DistinctRules l) : ((demoteAt dropped l).filter fun v => v.status = .fail) =
      l.filter fun v => v.status = .fail ∧ KeepsFail library l v := by
  have hkept : ∀ item ∈ l.zipIdx, item.2 ∉ dropped ↔ KeepsFail library l item.1 := by
    intro item hitem
    cases hk : item.1.cascade with
    | none =>
      exact iff_of_true (h.other item hitem hk) fun w _ hw heq => absurd (heq.trans hk) hw
    | some k =>
      have hmem : item ∈ membersOf l k := mem_membersOf.mpr ⟨hitem, hk⟩
      obtain ⟨keeper, hkeeper, hrest⟩ := h.keeper k (List.ne_nil_of_mem hmem)
      rw [(hrest item hmem).1, not_not]
      constructor
      · rintro rfl w hw - heq
        obtain ⟨i, hi⟩ := List.mem_iff_getElem?.mp hw
        have hwi : (w, i) ∈ membersOf l k :=
          mem_membersOf.mpr ⟨List.mk_mem_zipIdx_iff_getElem?.mpr hi, heq.trans hk⟩
        exact (hrest (w, i) hwi).2
      · intro hmax
        obtain ⟨hkeeper', hkk⟩ := mem_membersOf.mp hkeeper
        have hle := hmax keeper.1 (List.fst_mem_of_mem_zipIdx hkeeper') (by simp [hkk])
          (hkk.trans hk.symm)
        have hrule := rank_injective ((hrest item hmem).2.antisymm hle)
        have hnodup := hdistinct k
        rw [← map_membersOf, List.map_map] at hnodup
        exact List.inj_on_of_nodup_map hnodup hmem hkeeper hrule
  rw [filter_demoteAt fun v => by simp, ← map_filter_zipIdx]
  refine congrArg (List.map Prod.fst) (List.filter_congr fun item hitem => ?_)
  simp [hkept item hitem]

theorem keepsFail_perm (h : l'.Perm l) (v : RuleVerdict) :
    KeepsFail library l' v ↔ KeepsFail library l v := by
  simp only [KeepsFail, h.mem_iff]

/-- What is kept as a failure, of the verdicts or an error. -/
def failsOf (kept : Except PyError (List RuleVerdict)) : List RuleVerdict :=
  match kept with
  | .ok kept => kept.filter fun v => v.status = .fail
  | .error _ => []

theorem failsOf_perm (h : l'.Perm l) (hlib : Known l library) (hdistinct : DistinctRules l) :
    (failsOf (deduplicateCascades l' library)).Perm (failsOf (deduplicateCascades l library)) := by
  have hlib' : Known l' library := fun v hv => hlib v (h.mem_iff.mp hv)
  have hdistinct' : DistinctRules l' := fun k =>
    (((h.filter _).map RuleVerdict.ruleId).nodup_iff).mpr (hdistinct k)
  obtain ⟨dropped, hl⟩ := deduplicate_spec hlib
  obtain ⟨dropped', hl'⟩ := deduplicate_spec hlib'
  rw [hl.run, hl'.run]
  change ((demoteAt dropped' l').filter _).Perm ((demoteAt dropped l).filter _)
  rw [hl.fails hdistinct, hl'.fails hdistinct']
  simp only [keepsFail_perm h]
  exact h.filter _

/-! ## The scores -/

/-- What the scores are, the order of the verdicts does not matter to. -/
structure OrderFree (sqrt : ℚ → ℚ) (library : Library) (excluded : Finset String)
    (agents : List String) (minAgents : ℤ) (threshold : ℚ) (l : List RuleVerdict) : Prop where
  fails : DistinctRules l → ∀ l' : List RuleVerdict, l'.Perm l →
    (failsOf (deduplicateCascades l' library)).Perm (failsOf (deduplicateCascades l library))
  exclusions : ∀ l' : List RuleVerdict, l'.Perm l →
    cascadeFairnessExclusions l' minAgents threshold =
      cascadeFairnessExclusions l minAgents threshold
  support : ∀ l' : List RuleVerdict, l'.Perm l → ∀ v,
    v ∈ commonSupport l' agents ↔ v ∈ commonSupport l agents
  metrics : ∀ l' : List RuleVerdict, l'.Perm l →
    (computeMetrics sqrt l' library excluded).map CohortMetrics.scores =
      (computeMetrics sqrt l library excluded).map CohortMetrics.scores

/-- Deduplication keeps one failure of each cascade, and is done once. -/
def DedupClosed (library : Library) (l : List RuleVerdict) : Prop :=
  ∃ kept, deduplicateCascades l library = .ok kept ∧ deduplicateCascades kept library = .ok kept ∧
    ∀ k, (∃ v ∈ l, v.cascade = some k) → (kept.filter fun v => v.cascade = some k).length = 1

theorem dedupClosed (hlib : Known l library) : DedupClosed library l := by
  obtain ⟨dropped, h⟩ := deduplicate_spec hlib
  refine ⟨demoteAt dropped l, h.run,
    deduplicateCascades_of_one (known_demoteAt hlib dropped) h.at_most_one, ?_⟩
  rintro k ⟨v, hv, hk⟩
  refine h.one_fail fun hnil => ?_
  have hmem : v ∈ l.filter fun v => v.cascade = some k := List.mem_filter.mpr ⟨hv, by simp [hk]⟩
  rw [← map_membersOf, hnil] at hmem
  exact List.not_mem_nil hmem

/-- The order of the verdicts matters to the exclusions alone, and there where an agent has verdicts
on one rule that miss its artifact and others that do not. -/
theorem scores_order_free_iff (sqrt : ℚ → ℚ) (excluded : Finset String) (agents : List String)
    (minAgents : ℤ) (threshold : ℚ) (hlib : Known l library) :
    OrderFree sqrt library excluded agents minAgents threshold l ∧ DedupClosed library l ↔
      GapsSettled l minAgents threshold := by
  constructor
  · rintro ⟨hfree, -⟩
    exact exclusions_order_free_iff.mp hfree.exclusions
  · intro hsettled
    exact ⟨
      { fails := fun hdistinct l' h => failsOf_perm h hlib hdistinct
        exclusions := exclusions_order_free_iff.mpr hsettled
        support := fun l' h => mem_commonSupport_perm h agents
        metrics := fun l' h => computeMetrics_perm sqrt h }, dedupClosed hlib⟩

/-- One rule. -/
def oneRule : Library := fun rule =>
  if rule = "r" then some { ruleId := "r", severity := .must, prior := .neutral } else none

/-- An agent's verdict on the rule. -/
def verdictOf (agent itemId : String) (status : VerdictStatus) : RuleVerdict where
  agentId := agent
  itemId := itemId
  roundId := 0
  ruleId := "r"
  surface := .userInstruction
  status := status
  method := .regex
  missingArtifactRef := if status = .noOpportunity then some "artifact" else none

/-- Of five agents two miss the artifact, and a third misses it in the first item. -/
def overtaken : List RuleVerdict :=
  [verdictOf "a" "first" .noOpportunity, verdictOf "b" "first" .noOpportunity,
    verdictOf "c" "first" .noOpportunity, verdictOf "c" "second" .pass,
    verdictOf "d" "first" .pass, verdictOf "e" "first" .pass]

theorem scores_order_free_overtaken :
    OrderFree (fun x => x) oneRule ∅ [] 5 (2 / 5) overtaken ∧ DedupClosed oneRule overtaken :=
  (scores_order_free_iff (fun x => x) ∅ [] 5 (2 / 5) (by unfold Known; decide)).mpr (by
    intro rule _
    by_cases hrule : rule = "r"
    · subst hrule
      decide +kernel
    · have hall : ∀ v ∈ overtaken, v.ruleId = "r" := by decide
      have hnone : agentsOn overtaken rule = ∅ := by
        rw [agentsOn, List.filter_eq_nil_iff.mpr fun v hv h =>
          hrule ((of_decide_eq_true h).symm.trans (hall v hv))]
        rfl
      simp [missesSome, missesAll, hnone])

theorem exclusions_of_overtaken : overtaken.reverse.Perm overtaken ∧
    (cascadeFairnessExclusions overtaken 5 (1 / 2) = ∅ ∧
      cascadeFairnessExclusions overtaken.reverse 5 (1 / 2) = {"r"}) ∧
    ¬(OrderFree (fun x => x) oneRule ∅ [] 5 (1 / 2) overtaken ∧ DedupClosed oneRule overtaken) := by
  have hlast : cascadeFairnessExclusions overtaken 5 (1 / 2) = ∅ := by decide +kernel
  have hfirst : cascadeFairnessExclusions overtaken.reverse 5 (1 / 2) = {"r"} := by decide +kernel
  refine ⟨overtaken.reverse_perm, ⟨hlast, hfirst⟩, fun ⟨hfree, _⟩ => ?_⟩
  have h := hfree.exclusions _ overtaken.reverse_perm
  rw [hlast, hfirst] at h
  exact absurd h (by decide)

end HarnessIf

end GymAct
