import Mathlib.Algebra.BigOperators.Group.Finset.Basic
import Mathlib.Data.Fintype.Perm
import Mathlib.Data.List.OfFn
import Mathlib.Tactic.Common

/-!
# Arrangements under a precedence

`pre x` is what must come before `x`. An arrangement lists the elements of a set, the last one
first, each of them after what it needs (`Arranges`). The arrangements of a set are counted by
their last element (`card_arrangements_succ`), and those of `0, …, n - 1` are the permutations
that keep the precedence (`card_arrangements_range`).
-/

namespace Arrangements

open Finset

variable {α : Type*} [DecidableEq α] {pre : α → Finset α}

/-- No element comes twice, and what an element needs comes further down the list. -/
def Arranges (pre : α → Finset α) : List α → Prop
  | [] => True
  | x :: l => x ∉ l ∧ pre x ⊆ l.toFinset ∧ Arranges pre l

/-- The arrangements of length `k` of a set. -/
def arrangements (pre : α → Finset α) : ℕ → Finset α → Finset (List α)
  | 0, s => if s = ∅ then {[]} else ∅
  | k + 1, s => (s.filter fun x => pre x ⊆ s.erase x).biUnion fun x =>
      (arrangements pre k (s.erase x)).image (x :: ·)

theorem mem_arrangements : ∀ {k : ℕ} {s : Finset α} {l : List α},
    l ∈ arrangements pre k s ↔ Arranges pre l ∧ l.toFinset = s ∧ l.length = k
  | 0, s, l => by
    rw [arrangements]
    constructor
    · intro h
      split at h
      · next hs =>
        obtain rfl := mem_singleton.mp h
        exact ⟨trivial, hs.symm, rfl⟩
      · exact absurd h (notMem_empty l)
    · rintro ⟨-, rfl, hlength⟩
      obtain rfl := List.length_eq_zero_iff.mp hlength
      exact mem_singleton_self _
  | k + 1, s, l => by
    simp only [arrangements, mem_biUnion, mem_filter, mem_image]
    constructor
    · rintro ⟨x, ⟨hx, hpre⟩, l, hl, rfl⟩
      obtain ⟨harranges, hset, hlength⟩ := mem_arrangements.mp hl
      refine ⟨⟨fun hmem => ?_, hset ▸ hpre, harranges⟩, ?_, by rw [List.length_cons, hlength]⟩
      · have hself : x ∈ s.erase x := hset ▸ List.mem_toFinset.mpr hmem
        exact notMem_erase x s hself
      · rw [List.toFinset_cons, hset, insert_erase hx]
    · rintro ⟨harranges, rfl, hlength⟩
      cases l with
      | nil => cases hlength
      | cons x l =>
        obtain ⟨hfresh, hpre, harranges⟩ := harranges
        have herase : (x :: l).toFinset.erase x = l.toFinset := by
          rw [List.toFinset_cons, erase_insert (fun h => hfresh (List.mem_toFinset.mp h))]
        refine ⟨x, ⟨by simp, herase ▸ hpre⟩, l, mem_arrangements.mpr ⟨harranges, herase.symm, ?_⟩, rfl⟩
        exact Nat.succ.inj hlength

/-- The arrangements are counted by their last element. -/
theorem card_arrangements_succ (k : ℕ) (s : Finset α) :
    (arrangements pre (k + 1) s).card =
      ∑ x ∈ s, if pre x ⊆ s.erase x then (arrangements pre k (s.erase x)).card else 0 := by
  rw [arrangements, card_biUnion, ← sum_filter]
  · exact sum_congr rfl fun x _ => card_image_of_injective _ fun l l' h => (List.cons.inj h).2
  · refine fun x _ y _ hxy => disjoint_left.mpr fun l hx hy => hxy ?_
    obtain ⟨_, _, rfl⟩ := mem_image.mp hx
    obtain ⟨_, _, h⟩ := mem_image.mp hy
    exact (List.cons.inj h).1.symm

/-- A list given by its indices. -/
theorem arranges_ofFn : ∀ {n : ℕ} {g : Fin n → α}, Arranges pre (List.ofFn g) ↔
    Function.Injective g ∧ ∀ k, ∀ x ∈ pre (g k), ∃ k', k < k' ∧ g k' = x
  | 0, g => by
    rw [List.ofFn_zero]
    exact iff_of_true trivial ⟨fun k => k.elim0, fun k => k.elim0⟩
  | n + 1, g => by
    rw [List.ofFn_succ, Arranges, arranges_ofFn]
    simp only [List.mem_ofFn, subset_iff, List.mem_toFinset]
    constructor
    · rintro ⟨hfresh, hpre, hinjective, hlater⟩
      refine ⟨?_, ?_⟩
      · intro a b hab
        rcases Fin.eq_zero_or_eq_succ a with rfl | ⟨a, rfl⟩ <;>
          rcases Fin.eq_zero_or_eq_succ b with rfl | ⟨b, rfl⟩
        · rfl
        · exact absurd ⟨b, hab.symm⟩ hfresh
        · exact absurd ⟨a, hab⟩ hfresh
        · exact congrArg Fin.succ (hinjective hab)
      · intro k x hx
        rcases Fin.eq_zero_or_eq_succ k with rfl | ⟨k, rfl⟩
        · obtain ⟨k', hk'⟩ := hpre hx
          exact ⟨k'.succ, Fin.succ_pos k', hk'⟩
        · obtain ⟨k', hlt, hk'⟩ := hlater k x hx
          exact ⟨k'.succ, Fin.succ_lt_succ_iff.mpr hlt, hk'⟩
    · rintro ⟨hinjective, hlater⟩
      refine ⟨?_, fun x hx => ?_, fun a b hab => Fin.succ_inj.mp (hinjective hab), fun k x hx => ?_⟩
      · rintro ⟨k, hk⟩
        exact Fin.succ_ne_zero k (hinjective hk)
      · obtain ⟨k', hlt, hk'⟩ := hlater 0 x hx
        obtain ⟨k', rfl⟩ := Fin.exists_succ_eq.mpr (Fin.ne_zero_of_lt hlt)
        exact ⟨k', hk'⟩
      · obtain ⟨k', hlt, hk'⟩ := hlater k.succ x hx
        obtain ⟨k', rfl⟩ := Fin.exists_succ_eq.mpr (Fin.ne_zero_of_lt hlt)
        exact ⟨k', Fin.succ_lt_succ_iff.mp hlt, hk'⟩

/-- The order of a permutation of the indices, the last one first. -/
def listing {n : ℕ} (σ : Equiv.Perm (Fin n)) : List ℕ := List.ofFn fun k => (σ.symm k.rev).val

theorem listing_injective {n : ℕ} : Function.Injective (listing (n := n)) := by
  intro σ τ h
  have hval := List.ofFn_injective h
  refine Equiv.symm_bijective.injective (Equiv.ext fun k => Fin.ext ?_)
  simpa using congrFun hval k.rev

theorem arranges_listing_iff {n : ℕ} {pre : ℕ → Finset ℕ} {σ : Equiv.Perm (Fin n)}
    (hpre : ∀ j < n, ∀ i ∈ pre j, i < n) :
    Arranges pre (listing σ) ↔ ∀ i j : Fin n, i.val ∈ pre j → σ i < σ j := by
  rw [listing, arranges_ofFn]
  constructor
  · rintro ⟨-, hlater⟩ i j hij
    obtain ⟨k, hlt, hk⟩ := hlater (σ j).rev i (by simpa using hij)
    have hik : σ i = k.rev := by rw [← Fin.ext hk, Equiv.apply_symm_apply]
    rw [hik, ← Fin.rev_rev (σ j), Fin.rev_lt_rev]
    exact hlt
  · intro h
    refine ⟨fun a b hab => Fin.rev_injective (σ.symm.injective (Fin.ext hab)), fun k x hx => ?_⟩
    have hx' : x < n := hpre _ (σ.symm k.rev).isLt x hx
    have hlt := h ⟨x, hx'⟩ (σ.symm k.rev) hx
    rw [Equiv.apply_symm_apply] at hlt
    refine ⟨(σ ⟨x, hx'⟩).rev, ?_, by simp⟩
    rw [← Fin.rev_lt_rev, Fin.rev_rev]
    exact hlt

theorem exists_listing {n : ℕ} {l : List ℕ} (hnodup : l.Nodup) (hset : l.toFinset = range n)
    (hlength : l.length = n) : ∃ σ : Equiv.Perm (Fin n), listing σ = l := by
  subst hlength
  have hlt (k : Fin l.length) : l.get k < l.length := by
    have hmem : l.get k ∈ l.toFinset := List.mem_toFinset.mpr (l.get_mem k)
    rwa [hset, mem_range] at hmem
  have hinjective : Function.Injective fun k => (⟨l.get k, hlt k⟩ : Fin l.length) := fun a b hab =>
    List.nodup_iff_injective_get.mp hnodup (congrArg Fin.val hab)
  let e := Equiv.ofBijective _ (Finite.injective_iff_bijective.mp hinjective)
  refine ⟨(Fin.revPerm.trans e).symm, ?_⟩
  rw [listing]
  calc List.ofFn (fun k => ((Fin.revPerm.trans e).symm.symm k.rev).val)
      = List.ofFn (fun k => l.get k) := congrArg List.ofFn (funext fun k => by simp [e])
    _ = l := List.ofFn_get l

/-- The arrangements of the indices are the permutations that keep the precedence. -/
theorem card_arrangements_range {n : ℕ} {pre : ℕ → Finset ℕ}
    (hpre : ∀ j < n, ∀ i ∈ pre j, i < n) :
    (arrangements pre n (range n)).card =
      (univ.filter fun σ : Equiv.Perm (Fin n) => ∀ i j : Fin n, i.val ∈ pre j → σ i < σ j).card := by
  symm
  refine card_bij (fun σ _ => listing σ) (fun σ hσ => ?_) (fun σ _ τ _ h => listing_injective h)
    fun l hl => ?_
  · refine mem_arrangements.mpr ⟨(arranges_listing_iff hpre).mpr (mem_filter.mp hσ).2, ?_, ?_⟩
    · ext x
      rw [List.mem_toFinset, mem_range, listing, List.mem_ofFn]
      exact ⟨fun ⟨k, hk⟩ => hk ▸ Fin.isLt _, fun hx => ⟨(σ ⟨x, hx⟩).rev, by simp⟩⟩
    · rw [listing, List.length_ofFn]
  · obtain ⟨harranges, hset, hlength⟩ := mem_arrangements.mp hl
    have hnodup : ∀ {l : List ℕ}, Arranges pre l → l.Nodup := by
      intro l hl
      induction l with
      | nil => exact List.nodup_nil
      | cons x l ih => exact List.nodup_cons.mpr ⟨hl.1, ih hl.2.2⟩
    obtain ⟨σ, rfl⟩ := exists_listing (hnodup harranges) hset hlength
    exact ⟨σ, mem_filter.mpr ⟨mem_univ σ, (arranges_listing_iff hpre).mp harranges⟩, rfl⟩

end Arrangements
