import Mathlib.Algebra.Order.BigOperators.Group.List
import Mathlib.Algebra.Order.Ring.Nat
import Mathlib.Data.List.Nodup
import Mathlib.Data.List.Perm.Subperm

/-!
# Merging linear orders

The merge of the C3 linearization, over any type : from lists that are to keep their order, the
first head that stands behind no other element is taken again and again. When the merge succeeds,
its result has no element twice and has each of the lists as a sublist (`sublist_merge`), so that
what is searched for is found in it as in one of the lists that has all candidates
(`findSome?_merge`).
-/

namespace Linearization

variable {K : Type*} [DecidableEq K]

/-- No list has `x` behind its head. -/
def Free (x : K) (ls : List (List K)) : Prop := ∀ l ∈ ls, x ∉ l.tail

instance (x : K) (ls : List (List K)) : Decidable (Free x ls) :=
  inferInstanceAs (Decidable (∀ l ∈ ls, x ∉ l.tail))

/-- The first head that is free. -/
def candidate (ls : List (List K)) : Option K :=
  (ls.filterMap List.head?).find? fun x => Free x ls

/-- Take `x` off the front. -/
def advance (x : K) (l : List K) : List K := if l.head? = some x then l.tail else l

/-- The merge, of at most so many elements. -/
def mergeFrom : ℕ → List (List K) → Option (List K)
  | 0, _ => some []
  | n + 1, ls =>
    if ∀ l ∈ ls, l = [] then some []
    else do
      let x ← candidate ls
      let rest ← mergeFrom n (ls.map (advance x))
      return x :: rest

/-- The merge, or `none` where no head is free. -/
def merge (ls : List (List K)) : Option (List K) := mergeFrom (ls.map List.length).sum ls

/-! ## Taking a head off -/

variable {x y : K} {l out : List K} {ls : List (List K)} {n : ℕ}

theorem candidate_eq_some (h : candidate ls = some x) :
    (∃ l ∈ ls, l.head? = some x) ∧ Free x ls := by
  refine ⟨?_, by simpa using List.find?_some h⟩
  obtain ⟨l, hl, hx⟩ := List.mem_filterMap.mp (List.mem_of_find?_eq_some h)
  exact ⟨l, hl, hx⟩

omit [DecidableEq K] in
theorem eq_cons_of_head? (h : l.head? = some x) : l = x :: l.tail := by
  cases l with
  | nil => cases h
  | cons y l => rw [Option.some_inj.mp h, List.tail_cons]

theorem length_advance_le (x : K) (l : List K) : (advance x l).length ≤ l.length := by
  unfold advance
  split
  · simp
  · exact le_rfl

theorem length_advance_lt (h : l.head? = some x) : (advance x l).length < l.length := by
  rw [advance, if_pos h, eq_cons_of_head? h]
  simp

/-- Taking a head off makes the lists shorter. -/
theorem sum_advance_lt (h : candidate ls = some x) :
    ((ls.map (advance x)).map List.length).sum < (ls.map List.length).sum := by
  obtain ⟨⟨l, hl, hx⟩, -⟩ := candidate_eq_some h
  rw [List.map_map]
  exact List.sum_lt_sum _ _ (fun l _ => length_advance_le x l) ⟨l, hl, length_advance_lt hx⟩

theorem mem_of_mem_advance (h : y ∈ advance x l) : y ∈ l := by
  unfold advance at h
  split at h
  · exact List.mem_of_mem_tail h
  · exact h

/-- What is free and taken off is gone. -/
theorem not_mem_advance (h : x ∉ l.tail) : x ∉ advance x l := by
  unfold advance
  split
  · exact h
  · next hx =>
    cases l with
    | nil => exact List.not_mem_nil
    | cons y l =>
      rw [List.mem_cons, not_or]
      exact ⟨fun hxy => hx (hxy ▸ rfl), h⟩

/-! ## The result -/

theorem mem_of_mem_mergeFrom :
    ∀ {n : ℕ} {ls : List (List K)} {out : List K}, mergeFrom n ls = some out → y ∈ out →
      ∃ l ∈ ls, y ∈ l
  | 0, _, _, h, hy => by
    cases h
    exact absurd hy List.not_mem_nil
  | n + 1, ls, out, h, hy => by
    rw [mergeFrom] at h
    split at h
    · cases h
      exact absurd hy List.not_mem_nil
    · obtain ⟨x, hx, h⟩ := Option.bind_eq_some_iff.mp h
      obtain ⟨rest, hrest, h⟩ := Option.bind_eq_some_iff.mp h
      cases h
      rcases List.mem_cons.mp hy with rfl | hy
      · obtain ⟨⟨l, hl, hhead⟩, -⟩ := candidate_eq_some hx
        exact ⟨l, hl, List.mem_of_mem_head? hhead⟩
      · obtain ⟨l', hl', hy⟩ := mem_of_mem_mergeFrom hrest hy
        obtain ⟨l, hl, rfl⟩ := List.mem_map.mp hl'
        exact ⟨l, hl, mem_of_mem_advance hy⟩

theorem nodup_mergeFrom :
    ∀ {n : ℕ} {ls : List (List K)} {out : List K}, mergeFrom n ls = some out → out.Nodup
  | 0, _, _, h => by
    cases h
    exact List.nodup_nil
  | n + 1, ls, out, h => by
    rw [mergeFrom] at h
    split at h
    · cases h
      exact List.nodup_nil
    · obtain ⟨x, hx, h⟩ := Option.bind_eq_some_iff.mp h
      obtain ⟨rest, hrest, h⟩ := Option.bind_eq_some_iff.mp h
      cases h
      refine List.nodup_cons.mpr ⟨fun hmem => ?_, nodup_mergeFrom hrest⟩
      obtain ⟨l', hl', hmem⟩ := mem_of_mem_mergeFrom hrest hmem
      obtain ⟨l, hl, rfl⟩ := List.mem_map.mp hl'
      exact not_mem_advance ((candidate_eq_some hx).2 l hl) hmem

theorem sublist_mergeFrom :
    ∀ {n : ℕ} {ls : List (List K)} {out : List K}, (ls.map List.length).sum ≤ n →
      mergeFrom n ls = some out → ∀ l ∈ ls, l.Sublist out
  | 0, ls, out, hn, h, l, hl => by
    have hlength : l.length ≤ (ls.map List.length).sum :=
      List.single_le_sum (by simp) _ (List.mem_map_of_mem hl)
    have hnil : l = [] := List.eq_nil_of_length_eq_zero (by omega)
    rw [hnil]
    exact List.nil_sublist _
  | n + 1, ls, out, hn, h, l, hl => by
    rw [mergeFrom] at h
    split at h
    · next hnil =>
      rw [hnil l hl]
      exact List.nil_sublist _
    · obtain ⟨x, hx, h⟩ := Option.bind_eq_some_iff.mp h
      obtain ⟨rest, hrest, h⟩ := Option.bind_eq_some_iff.mp h
      cases h
      have hlt := sum_advance_lt hx
      have hsub := sublist_mergeFrom (by omega) hrest _ (List.mem_map_of_mem hl)
      unfold advance at hsub
      split at hsub
      · next hhead =>
        rw [eq_cons_of_head? hhead]
        exact hsub.cons_cons x
      · exact hsub.cons x

/-- The merge keeps the order of each list. -/
theorem sublist_merge (h : merge ls = some out) (hl : l ∈ ls) : l.Sublist out :=
  sublist_mergeFrom le_rfl h l hl

theorem nodup_merge (h : merge ls = some out) : out.Nodup := nodup_mergeFrom h

theorem mem_merge (h : merge ls = some out) : y ∈ out ↔ ∃ l ∈ ls, y ∈ l :=
  ⟨mem_of_mem_mergeFrom h, fun ⟨_, hl, hy⟩ => (sublist_merge h hl).subset hy⟩

/-- Where a list has all elements of a kind, it has them in the order of the result. -/
theorem filter_merge (h : merge ls = some out) (hl : l ∈ ls) {p : K → Bool}
    (hp : ∀ y ∈ out, p y = true → y ∈ l) : out.filter p = l.filter p := by
  have hsub : (l.filter p).Sublist (out.filter p) := (sublist_merge h hl).filter p
  have hlength : (out.filter p).length ≤ (l.filter p).length := by
    refine (List.subperm_of_subset ((nodup_merge h).filter p) fun y hy => ?_).length_le
    obtain ⟨hy, hpy⟩ := List.mem_filter.mp hy
    exact List.mem_filter.mpr ⟨hp y hy hpy, hpy⟩
  exact (hsub.eq_of_length_le hlength).symm

/-- A search whose candidates are all in one of the lists finds the same there. -/
theorem findSome?_merge {A : Type*} (h : merge ls = some out) (hl : l ∈ ls) {f : K → Option A}
    (hf : ∀ y ∈ out, (f y).isSome = true → y ∈ l) : out.findSome? f = l.findSome? f := by
  have hfilter (l : List K) : (l.filter fun y => (f y).isSome).filterMap f = l.filterMap f := by
    rw [List.filterMap_filter]
    congr 1
    funext y
    cases f y <;> rfl
  rw [← List.head?_filterMap, ← List.head?_filterMap, ← hfilter, ← hfilter l,
    filter_merge h hl hf]

end Linearization
