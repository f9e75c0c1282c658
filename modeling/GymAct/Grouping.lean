import GymAct.DistinctKeys
import Mathlib.Data.List.Induction
import Mathlib.Data.List.Nodup
import Mathlib.Data.List.Perm.Basic

/-!
# Groups by a key

`group` puts the elements of a list under their keys, one after another, as a `dict` of lists
does. Each group has what the list has of its key (`groups_group`), so that what is computed from
the groups depends on the order of the list only as far as it depends on the order within a group
(`map_group_perm`).
-/

namespace Grouping

variable {κ α β : Type*} [DecidableEq κ] (key : α → κ)

/-- An item at the end of its group. -/
def insert (item : α) : List (κ × List α) → List (κ × List α)
  | [] => [(key item, [item])]
  | (k, members) :: groups =>
    if k = key item then (k, members ++ [item]) :: groups else (k, members) :: insert item groups

def group (l : List α) : List (κ × List α) := l.foldl (fun groups item => insert key item groups) []

variable {key} {l l' : List α} {groups : List (κ × List α)} {g : κ × List α} {k : κ} {item : α}

theorem keys_insert (item : α) : ∀ groups : List (κ × List α),
    (insert key item groups).map Prod.fst = if key item ∈ groups.map Prod.fst then
      groups.map Prod.fst else groups.map Prod.fst ++ [key item]
  | [] => rfl
  | (k, members) :: groups => by
    unfold insert
    by_cases hkey : k = key item
    · simp [hkey]
    · rw [if_neg hkey, List.map_cons, keys_insert item groups]
      have hne : ¬key item = k := fun h => hkey h.symm
      simp only [List.map_cons, List.mem_cons, hne, false_or]
      split <;> rfl

/-- A group is as it was, has the item at its end, or is new. -/
theorem mem_insert : ∀ {groups : List (κ × List α)}, (groups.map Prod.fst).Nodup →
    g ∈ insert key item groups → (g ∈ groups ∧ g.1 ≠ key item) ∨
      (∃ members, (key item, members) ∈ groups ∧ g = (key item, members ++ [item])) ∨
      (key item ∉ groups.map Prod.fst ∧ g = (key item, [item]))
  | [], _, h => Or.inr (Or.inr ⟨List.not_mem_nil, List.mem_singleton.mp h⟩)
  | (k, members) :: groups, hnodup, h => by
    obtain ⟨hkey, hnodup⟩ := List.nodup_cons.mp hnodup
    unfold insert at h
    split at h
    · next heq =>
      rcases List.mem_cons.mp h with rfl | h
      · exact Or.inr (Or.inl ⟨members, by simp [heq], by rw [heq]⟩)
      · exact Or.inl ⟨List.mem_cons_of_mem _ h, fun hg => hkey
          (List.mem_map.mpr ⟨g, h, hg.trans heq.symm⟩)⟩
    · next hne =>
      rcases List.mem_cons.mp h with rfl | h
      · exact Or.inl ⟨List.mem_cons_self, hne⟩
      · rcases mem_insert hnodup h with ⟨hold, hg⟩ | ⟨ms, hold, rfl⟩ | ⟨hnew, rfl⟩
        · exact Or.inl ⟨List.mem_cons_of_mem _ hold, hg⟩
        · exact Or.inr (Or.inl ⟨ms, List.mem_cons_of_mem _ hold, rfl⟩)
        · refine Or.inr (Or.inr ⟨fun hmem => ?_, rfl⟩)
          rcases List.mem_cons.mp hmem with heq | hmem
          · exact hne heq.symm
          · exact hnew hmem

/-- Each group has what is listed of its key, and everything is in a group. -/
structure Groups (key : α → κ) (l : List α) (groups : List (κ × List α)) : Prop where
  nodup : (groups.map Prod.fst).Nodup
  eq_filter : ∀ g ∈ groups, g.2 = l.filter fun a => key a = g.1
  mem_keys : ∀ k, k ∈ groups.map Prod.fst ↔ k ∈ l.map key

theorem Groups.insert (h : Groups key l groups) (item : α) :
    Groups key (l ++ [item]) (insert key item groups) where
  nodup := by
    rw [keys_insert]
    split
    · exact h.nodup
    · next hnew => exact List.nodup_append_comm.mp (List.nodup_cons.mpr ⟨hnew, h.nodup⟩)
  eq_filter := fun g hg => by
    rcases mem_insert h.nodup hg with ⟨hold, hne⟩ | ⟨members, hold, rfl⟩ | ⟨hnew, rfl⟩
    · rw [h.eq_filter g hold, List.filter_append, List.filter_cons_of_neg (by simpa using hne.symm)]
      simp
    · obtain rfl : members = l.filter fun a => key a = key item := h.eq_filter _ hold
      simp
    · have hnone : (l.filter fun a => key a = key item) = [] :=
        List.filter_eq_nil_iff.mpr fun a ha hkey => hnew ((h.mem_keys _).mpr
          (of_decide_eq_true hkey ▸ List.mem_map_of_mem ha))
      rw [List.filter_append, hnone]
      simp
  mem_keys := fun k => by
    rw [keys_insert, List.map_append, List.mem_append, List.map_singleton, List.mem_singleton]
    split
    · next hold =>
      rw [h.mem_keys]
      exact ⟨Or.inl, fun hk => hk.elim id fun hk => hk ▸ (h.mem_keys _).mp hold⟩
    · rw [List.mem_append, h.mem_keys, List.mem_singleton]

theorem groups_group (l : List α) : Groups key l (group key l) := by
  induction l using List.reverseRecOn with
  | nil => exact ⟨List.nodup_nil, fun g hg => (List.not_mem_nil hg).elim, fun k => Iff.rfl⟩
  | append_singleton l item ih =>
    rw [group, List.foldl_append]
    exact ih.insert item

theorem mem_group_of_mem {a : α} (ha : a ∈ l) :
    (key a, l.filter fun b => key b = key a) ∈ group key l := by
  have h : Groups key l (group key l) := groups_group l
  obtain ⟨⟨k, members⟩, hg, hk⟩ := List.mem_map.mp ((h.mem_keys _).mpr (List.mem_map_of_mem ha))
  obtain rfl : k = key a := hk
  obtain rfl : members = l.filter fun b => key b = key a := h.eq_filter _ hg
  exact hg

theorem members_ne_nil (hg : g ∈ group key l) : g.2 ≠ [] := by
  have h : Groups key l (group key l) := groups_group l
  obtain ⟨a, ha, hkey⟩ := List.mem_map.mp ((h.mem_keys _).mp (List.mem_map_of_mem hg))
  rw [h.eq_filter g hg]
  exact List.ne_nil_of_mem (List.mem_filter.mpr ⟨ha, decide_eq_true hkey⟩)

theorem lookup_group (k : κ) : (group key l).lookup k =
    if k ∈ l.map key then some (l.filter fun a => key a = k) else none := by
  have h : Groups key l (group key l) := groups_group l
  split
  · next hk =>
    obtain ⟨a, ha, rfl⟩ := List.mem_map.mp hk
    exact DistinctKeys.lookup_of_mem h.nodup (mem_group_of_mem ha)
  · next hk =>
    rw [DistinctKeys.lookup_eq_none_iff, h.mem_keys]
    exact hk

/-- What does not depend on the order within a group depends on no order. -/
theorem map_group_perm (h : l.Perm l') (f : κ → List α → β)
    (hf : ∀ k (members members' : List α), members.Perm members' → f k members = f k members') :
    ((group key l).map fun g => f g.1 g.2).Perm ((group key l').map fun g => f g.1 g.2) := by
  have hkeys (l : List α) : ((group key l).map fun g => f g.1 g.2) =
      ((group key l).map Prod.fst).map fun k => f k (l.filter fun a => key a = k) := by
    rw [List.map_map]
    exact List.map_congr_left fun g hg => congrArg (f g.1) ((groups_group l).eq_filter g hg)
  have hperm : ((group key l).map Prod.fst).Perm ((group key l').map Prod.fst) := by
    refine (List.perm_ext_iff_of_nodup (groups_group l).nodup (groups_group l').nodup).mpr
      fun k => ?_
    rw [(groups_group l).mem_keys, (groups_group l').mem_keys, (h.map key).mem_iff]
  rw [hkeys, hkeys]
  refine (hperm.map _).trans (List.Perm.of_eq (List.map_congr_left fun k _ => ?_))
  exact hf k _ _ (h.filter _)

theorem keys_group_perm (h : l.Perm l') :
    ((group key l).map Prod.fst).Perm ((group key l').map Prod.fst) :=
  map_group_perm h (fun k _ => k) fun _ _ _ _ => rfl

/-- The groups of which `p` holds. -/
theorem mem_keys_filter {p : List α → Prop} [DecidablePred p] :
    k ∈ ((group key l).filter fun g => p g.2).map Prod.fst ↔
      k ∈ l.map key ∧ p (l.filter fun a => key a = k) := by
  have h : Groups key l (group key l) := groups_group l
  simp only [List.mem_map, List.mem_filter, decide_eq_true_eq]
  constructor
  · rintro ⟨g, ⟨hg, hp⟩, rfl⟩
    exact ⟨List.mem_map.mp ((h.mem_keys g.1).mp (List.mem_map_of_mem hg)), h.eq_filter g hg ▸ hp⟩
  · rintro ⟨⟨a, ha, rfl⟩, hp⟩
    exact ⟨_, ⟨mem_group_of_mem ha, hp⟩, rfl⟩

/-- The groups have what is listed. -/
theorem flatMap_group_perm (l : List α) : ((group key l).flatMap Prod.snd).Perm l := by
  have hinsert : ∀ (item : α) (groups : List (κ × List α)),
      ((insert key item groups).flatMap Prod.snd).Perm (groups.flatMap Prod.snd ++ [item]) := by
    intro item groups
    induction groups with
    | nil => exact List.Perm.refl _
    | cons g groups ih =>
      unfold insert
      split
      · simp only [List.flatMap_cons, List.append_assoc]
        exact List.Perm.append_left _ List.perm_append_comm
      · simp only [List.flatMap_cons, List.append_assoc]
        exact ih.append_left _
  induction l using List.reverseRecOn with
  | nil => exact List.Perm.refl _
  | append_singleton l item ih =>
    rw [group, List.foldl_append]
    exact (hinsert item (group key l)).trans (ih.append_right [item])

theorem lookup_map {γ : Type*} (f : List α → γ) (k : κ) : ∀ groups : List (κ × List α),
    (groups.map fun g => (g.1, f g.2)).lookup k = (groups.lookup k).map f
  | [] => rfl
  | g :: groups => by
    rw [List.map_cons, List.lookup_cons, List.lookup_cons, lookup_map f k groups]
    cases k == g.1 <;> rfl

end Grouping
