import Mathlib.Data.List.Nodup

/-!
# Union of keyed lists

A list stands for the table that has each of its elements under its key. `insert` adds an
element unless its key is taken : by the same content it changes nothing, by other content
it fails. Content is compared by a relation `same`, which need not be equality.

`insertAll` succeeds exactly when no key has different content in the two lists
(`insertAll_eq`), and what it returns does not depend on `same` : the first list, and after it
what the second has under new keys (`merge`). So union is idempotent and associative where it is
defined, and commutative up to the order and `same`.
-/

set_option linter.unusedSectionVars false

namespace KeyedUnion

variable {α κ : Type*} [DecidableEq κ] (key : α → κ) (same : α → α → Prop) [DecidableRel same]

/-- The last element under a key. -/
def prior (items : List α) (k : κ) : Option α := items.reverse.find? fun item => key item = k

/-- One element more, unless its key has other content. -/
def insert (items : List α) (value : α) : Option (List α) :=
  match prior key items (key value) with
  | some item => if same item value then some items else none
  | none => some (items ++ [value])

def insertAll (items values : List α) : Option (List α) := values.foldlM (insert key same) items

/-- What the second list has under new keys, after the first. -/
def merge (items values : List α) : List α :=
  items ++ values.filter fun value => key value ∉ items.map key

/-- No key has different content. -/
def Agree (items values : List α) : Prop :=
  ∀ item ∈ items, ∀ value ∈ values, key item = key value → same item value

instance (items values : List α) : Decidable (Agree key same items values) :=
  inferInstanceAs (Decidable (∀ item ∈ items, ∀ value ∈ values, _))

variable {key same} {items values more : List α} {value : α}

/-! ## One element -/

theorem prior_of_mem (hkeys : (items.map key).Nodup) {item : α} (hitem : item ∈ items)
    {k : κ} (hk : key item = k) : prior key items k = some item := by
  unfold prior
  cases hfind : items.reverse.find? fun item => key item = k with
  | none => exact absurd hk (by simpa using List.find?_eq_none.mp hfind item (by simpa using hitem))
  | some found =>
    have hkey : key found = k := by simpa using List.find?_some hfind
    have hmem : found ∈ items := by simpa using List.mem_of_find?_eq_some hfind
    rw [List.inj_on_of_nodup_map hkeys hmem hitem (hkey.trans hk.symm)]

theorem prior_eq_none {k : κ} (hk : k ∉ items.map key) : prior key items k = none := by
  refine List.find?_eq_none.mpr fun item hitem => ?_
  have hne : key item ≠ k := fun h => hk (h ▸ List.mem_map_of_mem (by simpa using hitem))
  simpa using hne

/-- Keys stay unique, whatever the content. -/
theorem insert_nodup (hkeys : (items.map key).Nodup) (h : insert key same items value = some more) :
    (more.map key).Nodup := by
  unfold insert at h
  split at h
  · split at h
    · cases h
      exact hkeys
    · cases h
  · rename_i hnone
    cases h
    have hnew : key value ∉ items.map key := by
      intro hmem
      obtain ⟨item, hitem, hk⟩ := List.mem_map.mp hmem
      rw [prior_of_mem hkeys hitem hk] at hnone
      cases hnone
    rw [List.map_append, List.map_singleton]
    exact hkeys.append (List.nodup_singleton _) (by simpa using hnew)

theorem mem_insert (h : insert key same items value = some more) {item : α} :
    item ∈ more → item ∈ items ∨ item = value := by
  unfold insert at h
  split at h
  · split at h <;> cases h
    exact Or.inl
  · cases h
    simp

theorem subset_insert (h : insert key same items value = some more) : items ⊆ more := by
  unfold insert at h
  split at h
  · split at h <;> cases h
    exact List.Subset.refl _
  · cases h
    exact List.subset_append_left _ _

/-! ## A whole list -/

@[simp] theorem merge_nil : merge key items [] = items := by simp [merge]

theorem merge_cons_of_mem (h : key value ∈ items.map key) :
    merge key items (value :: values) = merge key items values := by
  rw [merge, List.filter_cons_of_neg (by simpa using h), merge]

theorem merge_cons_of_not_mem (h : key value ∉ items.map key)
    (hvalues : key value ∉ values.map key) :
    merge key items (value :: values) = merge key (items ++ [value]) values := by
  rw [merge, merge, List.filter_cons_of_pos (by simpa using h), List.append_assoc,
    List.singleton_append]
  congr 2
  refine List.filter_congr fun v hv => ?_
  have hne : key v ≠ key value := fun e => hvalues (e ▸ List.mem_map_of_mem hv)
  simp [hne]

/-- A list is added as a whole, or something in it has other content under its key. -/
theorem insertAll_eq : ∀ {values items : List α}, (items.map key).Nodup → (values.map key).Nodup →
    insertAll key same items values =
      if Agree key same items values then some (merge key items values) else none
  | [], items, _, _ => by simp [insertAll, Agree]
  | value :: values, items, hitems, hvalues => by
    obtain ⟨hnew, hvalues⟩ := List.nodup_cons.mp (List.map_cons ▸ hvalues)
    have hstep : insertAll key same items (value :: values) =
        (insert key same items value).bind fun items => insertAll key same items values := rfl
    by_cases hmem : key value ∈ items.map key
    · obtain ⟨item, hitem, hk⟩ := List.mem_map.mp hmem
      have hinsert : insert key same items value = if same item value then some items else none := by
        rw [insert, prior_of_mem hitems hitem hk]
      by_cases hsame : same item value
      · have hagree : Agree key same items (value :: values) ↔ Agree key same items values := by
          refine ⟨fun h i hi v hv => h i hi v (List.mem_cons_of_mem _ hv), fun h i hi v hv he => ?_⟩
          rcases List.mem_cons.mp hv with rfl | hv
          · rwa [List.inj_on_of_nodup_map hitems hi hitem (he.trans hk.symm)]
          · exact h i hi v hv he
        rw [hstep, hinsert, if_pos hsame, Option.bind_some, insertAll_eq hitems hvalues,
          merge_cons_of_mem hmem, if_congr hagree rfl rfl]
      · rw [hstep, hinsert, if_neg hsame, Option.bind_none,
          if_neg fun h => hsame (h item hitem value List.mem_cons_self hk)]
    · have hinsert : insert key same items value = some (items ++ [value]) := by
        rw [insert, prior_eq_none hmem]
      have hitems' : ((items ++ [value]).map key).Nodup := insert_nodup hitems hinsert
      have hagree : Agree key same items (value :: values) ↔
          Agree key same (items ++ [value]) values := by
        refine ⟨fun h i hi v hv he => ?_, fun h i hi v hv he => ?_⟩
        · rcases List.mem_append.mp hi with hi | hi
          · exact h i hi v (List.mem_cons_of_mem _ hv) he
          · rw [List.mem_singleton.mp hi] at he
            exact absurd (he ▸ List.mem_map_of_mem hv) hnew
        · rcases List.mem_cons.mp hv with rfl | hv
          · exact absurd (he ▸ List.mem_map_of_mem hi) hmem
          · exact h i (List.mem_append_left _ hi) v hv he
      rw [hstep, hinsert, Option.bind_some, insertAll_eq hitems' hvalues,
        merge_cons_of_not_mem hmem hnew, if_congr hagree rfl rfl]

/-! ## The laws of the join -/

theorem mem_merge {item : α} :
    item ∈ merge key items values ↔
      item ∈ items ∨ item ∈ values ∧ key item ∉ items.map key := by
  simp [merge]

theorem keys_merge {k : κ} :
    k ∈ (merge key items values).map key ↔ k ∈ items.map key ∨ k ∈ values.map key := by
  refine ⟨fun h => ?_, fun h => ?_⟩
  · obtain ⟨item, hitem, rfl⟩ := List.mem_map.mp h
    exact (mem_merge.mp hitem).imp List.mem_map_of_mem fun h => List.mem_map_of_mem h.1
  · by_cases hk : k ∈ items.map key
    · obtain ⟨item, hitem, rfl⟩ := List.mem_map.mp hk
      exact List.mem_map_of_mem (mem_merge.mpr (.inl hitem))
    · obtain ⟨item, hitem, rfl⟩ := List.mem_map.mp (h.resolve_left hk)
      exact List.mem_map_of_mem (mem_merge.mpr (.inr ⟨hitem, hk⟩))

theorem nodup_merge (hitems : (items.map key).Nodup) (hvalues : (values.map key).Nodup) :
    ((merge key items values).map key).Nodup := by
  rw [merge, List.map_append]
  refine hitems.append (hvalues.sublist (List.filter_sublist.map key)) fun k hk hk' => ?_
  obtain ⟨value, hvalue, rfl⟩ := List.mem_map.mp hk'
  exact absurd hk (by simpa using (List.mem_filter.mp hvalue).2)

theorem merge_self (items : List α) : merge key items items = items := by
  rw [merge, List.filter_eq_nil_iff.mpr, List.append_nil]
  intro item hitem
  simpa using ⟨item, hitem, rfl⟩

theorem merge_assoc (a b c : List α) :
    merge key (merge key a b) c = merge key a (merge key b c) := by
  conv_rhs => rw [merge, merge, List.filter_append, ← List.append_assoc]
  rw [merge, merge]
  congr 1
  rw [List.filter_filter]
  refine List.filter_congr fun value _ => ?_
  have hkeys : key value ∈ (merge key a b).map key ↔
      key value ∈ a.map key ∨ key value ∈ b.map key := keys_merge
  rw [merge] at hkeys
  rw [← Bool.decide_and]
  exact decide_eq_decide.mpr (by rw [hkeys]; tauto)

/-- Of two lists that agree, each element of one union has its content in the other. -/
theorem exists_same_of_mem_merge (hrefl : ∀ item, same item item)
    (hagree : Agree key same values items) {item : α} (h : item ∈ merge key items values) :
    ∃ other ∈ merge key values items, key other = key item ∧ same other item := by
  rcases mem_merge.mp h with hitem | ⟨hvalue, -⟩
  · by_cases hk : key item ∈ values.map key
    · obtain ⟨value, hvalue, he⟩ := List.mem_map.mp hk
      exact ⟨value, mem_merge.mpr (.inl hvalue), he, hagree value hvalue item hitem he⟩
    · exact ⟨item, mem_merge.mpr (.inr ⟨hitem, hk⟩), rfl, hrefl item⟩
  · exact ⟨item, mem_merge.mpr (.inl hvalue), rfl, hrefl item⟩

theorem Agree.symm (hsymm : ∀ item ∈ items, ∀ value ∈ values, same item value → same value item)
    (h : Agree key same items values) : Agree key same values items :=
  fun value hvalue item hitem he => hsymm item hitem value hvalue (h item hitem value hvalue he.symm)

theorem agree_self (hrefl : ∀ item, same item item) (hitems : (items.map key).Nodup) :
    Agree key same items items := fun item hitem value hvalue he => by
  rw [List.inj_on_of_nodup_map hitems hitem hvalue he]
  exact hrefl value

end KeyedUnion
