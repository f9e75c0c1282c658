import GymAct.ShortestLabels
import Mathlib.Algebra.BigOperators.Ring.Finset
import Mathlib.Algebra.Order.BigOperators.Group.Finset
import Mathlib.Algebra.Order.Field.Basic
import Mathlib.Data.Finset.Prod
import Mathlib.Tactic.Linarith
import Mathlib.Tactic.Ring

/-!
# Transportation

Goods are carried from sources to targets : every source sends its supply and every target
receives its demand. `IsPlan` is a way to do so. Prices at both sides that no lane exceeds are a
dual, whose value bounds the cost of every plan from below (`IsPlan.dualValue_le`).

Rerouting along a closed walk of the residual arcs keeps the supplies and the demands. So a plan
that none undercuts has no closed residual walk of negative cost, and the labels of its residual
arcs are prices that are met exactly on every lane in use (`IsPlan.optimal_iff`).
-/

set_option linter.unusedSectionVars false

open Finset ShortestLabels

/-- Supplies and demands, with what it costs to carry a unit from a source to a target. -/
structure Transportation (X Y K : Type*) where
  sources : Finset X
  targets : Finset Y
  supply : X → K
  demand : Y → K
  cost : X → Y → K

namespace Transportation

variable {X Y K : Type*} [Field K] [LinearOrder K] [IsStrictOrderedRing K]

variable (P : Transportation X Y K) (π δ : X → Y → K) (u : X → K) (v : Y → K)

/-- What is carried on each lane. -/
structure IsPlan : Prop where
  nonneg : ∀ x ∈ P.sources, ∀ y ∈ P.targets, 0 ≤ π x y
  row : ∀ x ∈ P.sources, ∑ y ∈ P.targets, π x y = P.supply x
  col : ∀ y ∈ P.targets, ∑ x ∈ P.sources, π x y = P.demand y

def value : K := ∑ x ∈ P.sources, ∑ y ∈ P.targets, π x y * P.cost x y

/-- Prices that no lane exceeds. -/
def IsDual : Prop := ∀ x ∈ P.sources, ∀ y ∈ P.targets, u x + v y ≤ P.cost x y

def dualValue : K := ∑ x ∈ P.sources, P.supply x * u x + ∑ y ∈ P.targets, P.demand y * v y

/-- Prices that are met exactly on every lane in use. -/
structure Complementary : Prop where
  dual : P.IsDual u v
  tight : ∀ x ∈ P.sources, ∀ y ∈ P.targets, 0 < π x y → u x + v y = P.cost x y

/-- No plan costs less. -/
def Cheapest : Prop := ∀ ρ, P.IsPlan ρ → P.value π ≤ P.value ρ

variable {P π δ u v}

/-! ## Weak duality -/

/-- A plan costs the value of the prices, and what its lanes cost beyond them. -/
theorem IsPlan.value_eq (h : P.IsPlan π) (u : X → K) (v : Y → K) :
    P.value π = P.dualValue u v +
      ∑ x ∈ P.sources, ∑ y ∈ P.targets, π x y * (P.cost x y - u x - v y) := by
  have hrow : ∑ x ∈ P.sources, P.supply x * u x =
      ∑ x ∈ P.sources, ∑ y ∈ P.targets, π x y * u x :=
    sum_congr rfl fun x hx => by rw [← h.row x hx, sum_mul]
  have hcol : ∑ y ∈ P.targets, P.demand y * v y =
      ∑ x ∈ P.sources, ∑ y ∈ P.targets, π x y * v y := by
    rw [sum_comm]
    exact sum_congr rfl fun y hy => by rw [← h.col y hy, sum_mul]
  rw [value, dualValue, hrow, hcol]
  simp only [← sum_add_distrib]
  refine sum_congr rfl fun x _ => sum_congr rfl fun y _ => ?_
  ring

theorem IsPlan.dualValue_le (h : P.IsPlan π) (hdual : P.IsDual u v) :
    P.dualValue u v ≤ P.value π := by
  rw [h.value_eq u v]
  refine le_add_of_nonneg_right (sum_nonneg fun x hx => sum_nonneg fun y hy => ?_)
  exact mul_nonneg (h.nonneg x hx y hy) (by linarith [hdual x hx y hy])

theorem IsPlan.value_eq_dualValue (h : P.IsPlan π) (hcomp : P.Complementary π u v) :
    P.value π = P.dualValue u v := by
  rw [h.value_eq u v]
  refine add_eq_left.mpr (sum_eq_zero fun x hx => sum_eq_zero fun y hy => ?_)
  rcases (h.nonneg x hx y hy).eq_or_lt with hzero | hpos
  · rw [← hzero, zero_mul]
  · rw [← hcomp.tight x hx y hy hpos]
    ring

/-- Prices that the cost of a plan meets show that no plan costs less. -/
theorem IsDual.cheapest (hdual : P.IsDual u v) (h : P.value π = P.dualValue u v) :
    P.Cheapest π := fun _ hρ => h ▸ hρ.dualValue_le hdual

/-! ## Residual arcs -/

section Residual

variable (P π)

/-- More can be carried on every lane, and less on a lane in use. -/
noncomputable def residual : List (Arc (X ⊕ Y) K) :=
  ((P.sources ×ˢ P.targets).toList.map fun l => ⟨.inl l.1, .inr l.2, P.cost l.1 l.2⟩) ++
    ((P.sources ×ˢ P.targets).filter fun l => 0 < π l.1 l.2).toList.map fun l =>
      ⟨.inr l.2, .inl l.1, -P.cost l.1 l.2⟩

variable {P π}

theorem mem_residual {e : Arc (X ⊕ Y) K} : e ∈ P.residual π ↔
    ∃ x ∈ P.sources, ∃ y ∈ P.targets, e = ⟨.inl x, .inr y, P.cost x y⟩ ∨
      0 < π x y ∧ e = ⟨.inr y, .inl x, -P.cost x y⟩ := by
  simp only [residual, List.mem_append, List.mem_map, mem_toList, mem_product, mem_filter,
    Prod.exists]
  constructor
  · rintro (⟨x, y, ⟨hx, hy⟩, rfl⟩ | ⟨x, y, ⟨⟨hx, hy⟩, hpos⟩, rfl⟩)
    · exact ⟨x, hx, y, hy, Or.inl rfl⟩
    · exact ⟨x, hx, y, hy, Or.inr ⟨hpos, rfl⟩⟩
  · rintro ⟨x, hx, y, hy, rfl | ⟨hpos, rfl⟩⟩
    · exact Or.inl ⟨x, y, ⟨hx, hy⟩, rfl⟩
    · exact Or.inr ⟨x, y, ⟨⟨hx, hy⟩, hpos⟩, rfl⟩

/-- Labels that the residual arcs settle are prices that are met exactly where they must be. -/
theorem complementary_of_solves {φ : X ⊕ Y → K} (h : Solves (P.residual π) φ) :
    P.Complementary π (fun x => -φ (.inl x)) fun y => φ (.inr y) := by
  have hle : ∀ x ∈ P.sources, ∀ y ∈ P.targets, φ (.inr y) ≤ φ (.inl x) + P.cost x y :=
    fun x hx y hy => h _ (mem_residual.mpr ⟨x, hx, y, hy, Or.inl rfl⟩)
  refine ⟨fun x hx y hy => by linarith [hle x hx y hy], fun x hx y hy hpos => ?_⟩
  have hge : φ (.inl x) ≤ φ (.inr y) + -P.cost x y :=
    h _ (mem_residual.mpr ⟨x, hx, y, hy, Or.inr ⟨hpos, rfl⟩⟩)
  linarith [hle x hx y hy]

open Classical in
/-- `s` more on one lane. -/
noncomputable def onLane (δ : X → Y → K) (s : K) (x : X) (y : Y) : X → Y → K :=
  fun x' y' => δ x' y' + s * if x = x' ∧ y = y' then 1 else 0

section OnLane

variable {s : K} {x : X} {y : Y}

open Classical in
theorem row_onLane (hy : y ∈ P.targets) (x' : X) :
    ∑ y' ∈ P.targets, onLane δ s x y x' y' =
      ∑ y' ∈ P.targets, δ x' y' + s * if x = x' then 1 else 0 := by
  simp only [onLane, sum_add_distrib, ← mul_sum]
  by_cases heq : x = x' <;> simp [heq, hy]

open Classical in
theorem col_onLane (hx : x ∈ P.sources) (y' : Y) :
    ∑ x' ∈ P.sources, onLane δ s x y x' y' =
      ∑ x' ∈ P.sources, δ x' y' + s * if y = y' then 1 else 0 := by
  simp only [onLane, sum_add_distrib, ← mul_sum]
  by_cases heq : y = y' <;> simp [heq, hx]

open Classical in
theorem value_onLane (hx : x ∈ P.sources) (hy : y ∈ P.targets) :
    P.value (onLane δ s x y) = P.value δ + s * P.cost x y := by
  have hinner : ∀ x' ∈ P.sources, (∑ y' ∈ P.targets,
      (if x = x' ∧ y = y' then (1 : K) else 0) * P.cost x' y') =
        if x = x' then P.cost x y else 0 := fun x' _ => by
    rcases eq_or_ne x x' with rfl | hne
    · simp [hy]
    · simp [hne]
  simp only [value, onLane, add_mul, sum_add_distrib, mul_assoc, ← mul_sum]
  rw [sum_congr rfl hinner, sum_ite_eq P.sources x, if_pos hx]

theorem le_onLane (hs : -1 ≤ s) (x' : X) (y' : Y) : δ x' y' - 1 ≤ onLane δ s x y x' y' := by
  unfold onLane
  split <;> linarith

end OnLane

open Classical in
/-- What is carried more, or less, once the goods of a unit follow a residual walk. -/
theorem exists_rerouting {a b : X ⊕ Y} {n : ℕ} {k : K} (h : Walk (P.residual π) a b n k) :
    ∃ δ : X → Y → K,
      (∀ x ∈ P.sources, ∑ y ∈ P.targets, δ x y =
        (if a = .inl x then 1 else 0) - if b = .inl x then 1 else 0) ∧
      (∀ y ∈ P.targets, ∑ x ∈ P.sources, δ x y =
        (if b = .inr y then 1 else 0) - if a = .inr y then 1 else 0) ∧
      P.value δ = k ∧ ∀ x y, -(n : K) ≤ δ x y ∧ (π x y ≤ 0 → 0 ≤ δ x y) := by
  induction h with
  | nil => exact ⟨fun _ _ => 0, by simp, by simp, by simp [value], by simp⟩
  | @snoc n k e _ he ih =>
    obtain ⟨δ, hrow, hcol, hvalue, hbound⟩ := ih
    obtain ⟨x, hx, y, hy, rfl | ⟨hpos, rfl⟩⟩ := mem_residual.mp he
    · refine ⟨onLane δ 1 x y, fun x' hx' => ?_, fun y' hy' => ?_, ?_, fun x' y' => ⟨?_, ?_⟩⟩
      · rw [row_onLane hy, hrow x' hx', one_mul]
        simp
      · rw [col_onLane hx, hcol y' hy', one_mul]
        simp
        ring
      · rw [value_onLane hx hy, hvalue, one_mul]
      · have hle := le_onLane (δ := δ) (x := x) (y := y) (neg_le_self zero_le_one) x' y'
        push_cast
        linarith [(hbound x' y').1]
      · intro hzero
        have hnonneg := (hbound x' y').2 hzero
        unfold onLane
        split <;> linarith
    · refine ⟨onLane δ (-1) x y, fun x' hx' => ?_, fun y' hy' => ?_, ?_, fun x' y' => ⟨?_, ?_⟩⟩
      · rw [row_onLane hy, hrow x' hx', neg_one_mul]
        simp
        ring
      · rw [col_onLane hx, hcol y' hy', neg_one_mul]
        simp
        ring
      · rw [value_onLane hx hy, hvalue, neg_one_mul]
      · have hle := le_onLane (δ := δ) (x := x) (y := y) (le_refl (-1 : K)) x' y'
        push_cast
        linarith [(hbound x' y').1]
      · intro hzero
        have hnonneg := (hbound x' y').2 hzero
        -- the lane that carries less is in use
        have hother : ¬(x = x' ∧ y = y') := fun ⟨hx, hy⟩ => by
          rw [hx, hy] at hpos
          exact absurd hpos (not_lt.mpr hzero)
        rw [onLane, if_neg hother]
        linarith

/-- A positive number below every positive value on a finite set. -/
theorem exists_pos_le {ι : Type*} (s : Finset ι) (f : ι → K) :
    ∃ ε > 0, ∀ i ∈ s, 0 < f i → ε ≤ f i := by
  classical
  induction s using Finset.induction_on with
  | empty => exact ⟨1, one_pos, by simp⟩
  | insert i s _ ih =>
    obtain ⟨ε, hε, hle⟩ := ih
    by_cases hi : 0 < f i
    · refine ⟨min ε (f i), lt_min hε hi, fun j hj hpos => ?_⟩
      rcases mem_insert.mp hj with rfl | hj
      · exact min_le_right _ _
      · exact (min_le_left _ _).trans (hle j hj hpos)
    · refine ⟨ε, hε, fun j hj hpos => ?_⟩
      rcases mem_insert.mp hj with rfl | hj
      · exact absurd hpos hi
      · exact hle j hj hpos

/-- A plan that none undercuts has no residual walk on which rerouting saves anything. -/
theorem IsPlan.noNegativeCycle (h : P.IsPlan π) (hcheapest : P.Cheapest π) :
    NoNegativeCycle (P.residual π) := by
  intro a n k hwalk
  obtain ⟨δ, hrow, hcol, hvalue, hbound⟩ := exists_rerouting hwalk
  obtain ⟨ε, hε, hle⟩ := exists_pos_le (P.sources ×ˢ P.targets) fun l => π l.1 l.2
  -- a share of `δ` that no lane in use cannot give
  have hshare : 0 < ε / (n + 1) := div_pos hε (by positivity)
  have hplan : P.IsPlan fun x y => π x y + ε / (n + 1) * δ x y := by
    refine ⟨fun x hx y hy => ?_, fun x hx => ?_, fun y hy => ?_⟩
    · obtain ⟨hge, hnonneg⟩ := hbound x y
      rcases (h.nonneg x hx y hy).eq_or_lt with hzero | hpos
      · exact add_nonneg (h.nonneg x hx y hy) (mul_nonneg hshare.le (hnonneg hzero.ge))
      · have hε' : ε ≤ π x y := hle (x, y) (mem_product.mpr ⟨hx, hy⟩) hpos
        have hlow : ε / (n + 1) * -(n : K) ≤ ε / (n + 1) * δ x y := by gcongr
        have hsplit : ε / (n + 1) * (n + 1) = ε := div_mul_cancel₀ ε (by positivity)
        linarith
    · rw [sum_add_distrib, h.row x hx, ← mul_sum, hrow x hx, sub_self, mul_zero, add_zero]
    · rw [sum_add_distrib, h.col y hy, ← mul_sum, hcol y hy, sub_self, mul_zero, add_zero]
  have hcost : P.value (fun x y => π x y + ε / (n + 1) * δ x y) = P.value π + ε / (n + 1) * k := by
    simp only [← hvalue, value, add_mul, sum_add_distrib, mul_sum, mul_assoc]
  have hsave := hcheapest _ hplan
  rw [hcost] at hsave
  exact nonneg_of_mul_nonneg_right (le_add_iff_nonneg_right _ |>.mp hsave) hshare

end Residual

/-- No plan costs less, just when there are prices that are met exactly on every lane in use. -/
theorem IsPlan.optimal_iff (h : P.IsPlan π) :
    P.Cheapest π ↔ ∃ u v, P.Complementary π u v := by
  constructor
  · intro hcheapest
    obtain ⟨φ, hφ⟩ := exists_solves_iff.mpr (h.noNegativeCycle hcheapest)
    exact ⟨_, _, complementary_of_solves hφ⟩
  · rintro ⟨u, v, hcomp⟩
    exact hcomp.dual.cheapest (h.value_eq_dualValue hcomp)

end Transportation
