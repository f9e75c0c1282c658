import Mathlib.Algebra.BigOperators.Group.List.Basic
import Mathlib.Data.List.Nodup
import Mathlib.Data.List.Perm.Basic

/-!
# Tables of distinct keys

A list of pairs is a table by `List.lookup`. Where its keys are distinct, what is looked up is what
is listed (`lookup_eq_some_iff`), in any order (`lookup_perm`), and what the table sums to may be
read off it key by key (`sum_lookup`).
-/

namespace DistinctKeys

variable {κ α : Type*} [BEq κ] [LawfulBEq κ] {l l' : List (κ × α)} {k : κ} {a : α}

theorem lookup_of_mem (hnodup : (l.map Prod.fst).Nodup) (h : (k, a) ∈ l) :
    l.lookup k = some a := by
  obtain ⟨before, after, rfl⟩ := List.append_of_mem h
  refine List.lookup_eq_some_iff.mpr ⟨before, after, rfl, fun item hitem => ?_⟩
  rw [List.map_append] at hnodup
  have hne := (List.nodup_append.mp hnodup).2.2 item.1 (List.mem_map_of_mem hitem) k (by simp)
  simpa using hne.symm

theorem mem_of_lookup (h : l.lookup k = some a) : (k, a) ∈ l := by
  obtain ⟨before, after, rfl, -⟩ := List.lookup_eq_some_iff.mp h
  simp

theorem lookup_eq_some_iff (hnodup : (l.map Prod.fst).Nodup) :
    l.lookup k = some a ↔ (k, a) ∈ l :=
  ⟨mem_of_lookup, lookup_of_mem hnodup⟩

theorem lookup_eq_none_iff : l.lookup k = none ↔ k ∉ l.map Prod.fst := by
  rw [List.lookup_eq_none_iff]
  constructor
  · rintro h hk
    obtain ⟨item, hitem, rfl⟩ := List.mem_map.mp hk
    simpa using h item hitem
  · intro h item hitem
    have hne : k ≠ item.1 := fun heq => h (heq ▸ List.mem_map_of_mem hitem)
    simpa using hne

theorem lookup_perm (hnodup : (l.map Prod.fst).Nodup) (h : l.Perm l') (k : κ) :
    l.lookup k = l'.lookup k := by
  have hnodup' : (l'.map Prod.fst).Nodup := (h.map Prod.fst).nodup_iff.mp hnodup
  ext a
  rw [lookup_eq_some_iff hnodup, lookup_eq_some_iff hnodup', h.mem_iff]

/-- What a table sums to, by its keys among others. -/
theorem sum_lookup [DecidableEq κ] [AddCommMonoid α] {keys : List κ} (hkeys : keys.Nodup)
    (hnodup : (l.map Prod.fst).Nodup) (hsub : l.map Prod.fst ⊆ keys) :
    (keys.map fun k => (l.lookup k).getD 0).sum = (l.map Prod.snd).sum := by
  have hperm : (keys.filter fun k => k ∈ l.map Prod.fst).Perm (l.map Prod.fst) := by
    refine (List.perm_ext_iff_of_nodup (hkeys.filter _) hnodup).mpr fun k => ?_
    rw [List.mem_filter, decide_eq_true_eq]
    exact ⟨fun h => h.2, fun h => ⟨hsub h, h⟩⟩
  have hother : ((keys.filter fun k => !decide (k ∈ l.map Prod.fst)).map
      fun k => (l.lookup k).getD 0).sum = 0 := by
    refine List.sum_eq_zero fun value hvalue => ?_
    obtain ⟨k, hk, rfl⟩ := List.mem_map.mp hvalue
    rw [lookup_eq_none_iff.mpr (by simpa using (List.mem_filter.mp hk).2)]
    rfl
  rw [← ((List.filter_append_perm (fun k => decide (k ∈ l.map Prod.fst)) keys).map _).sum_eq,
    List.map_append, List.sum_append, hother, add_zero, (hperm.map _).sum_eq, List.map_map]
  refine congrArg List.sum (List.map_congr_left fun item hitem => ?_)
  rw [Function.comp_apply, lookup_of_mem hnodup hitem]
  rfl

end DistinctKeys
