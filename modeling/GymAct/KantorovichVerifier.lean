import GymAct.KantorovichDual
import GymAct.Transportation
import Mathlib.Algebra.BigOperators.Group.Finset.Basic
import Mathlib.Algebra.BigOperators.Group.Finset.Sigma

/-!
# What the verifier accepts

A plan and a potential are read as functions on the supports (`TransportPlan.amount`, `price`),
and the problem they are for as a transportation problem (`problem`). `verifyMarginals` accepts a
plan just when it has the right marginals, `verifyDualFeasibility` a potential just when it covers
the supports and no lane exceeds it.

`verify` then accepts no plan that another undercuts (`cheapest_of_verify`), and accepts a plan
with every potential that is met exactly on its lanes in use (`verify_of_complementary`).
-/

namespace GymAct.Kantorovich

open Finset

/-! ## Programs that raise -/

section Checks

variable {α β σ : Type}

@[simp]
theorem require_eq_ok {p : Prop} [Decidable p] {code detail : String} {a : Unit} :
    require p code detail = .ok a ↔ p := by
  unfold require refuse
  split <;> simp_all

theorem bind_eq_ok {x : Checked α} {f : α → Checked β} {b : β} :
    x >>= f = .ok b ↔ ∃ a, x = .ok a ∧ f a = .ok b := by
  cases x with
  | error e => exact ⟨nofun, fun ⟨_, h, _⟩ => nomatch h⟩
  | ok a => exact ⟨fun h => ⟨a, rfl, h⟩, fun ⟨_, h, hf⟩ => by cases h; exact hf⟩

theorem forM_eq_ok {f : α → Checked Unit} {l : List α} {u : Unit} :
    l.forM f = .ok u ↔ ∀ a ∈ l, f a = .ok () := by
  induction l with
  | nil => exact ⟨fun _ => by simp, fun _ => rfl⟩
  | cons a l ih =>
    rw [show (a :: l).forM f = f a >>= fun _ => l.forM f from rfl, bind_eq_ok,
      List.forall_mem_cons]
    exact ⟨fun ⟨_, h, hl⟩ => ⟨h, ih.mp hl⟩, fun ⟨h, hl⟩ => ⟨(), h, ih.mpr hl⟩⟩

/-- A loop whose steps succeed or not whatever was summed up before. -/
theorem foldlM_ok_iff {f : σ → α → Checked σ} {C : α → Prop} {l : List α}
    (h : ∀ a ∈ l, ∀ s, (∃ s', f s a = .ok s') ↔ C a) (s : σ) :
    (∃ s', l.foldlM f s = .ok s') ↔ ∀ a ∈ l, C a := by
  induction l generalizing s with
  | nil => exact ⟨fun _ => by simp, fun _ => ⟨s, rfl⟩⟩
  | cons a l ih =>
    rw [List.forall_mem_cons] at h
    simp only [List.foldlM_cons, bind_eq_ok, List.forall_mem_cons]
    constructor
    · rintro ⟨s', s₁, hs, hl⟩
      exact ⟨(h.1 s).mp ⟨s₁, hs⟩, (ih h.2 s₁).mp ⟨s', hl⟩⟩
    · rintro ⟨ha, hl⟩
      obtain ⟨s₁, hs⟩ := (h.1 s).mpr ha
      obtain ⟨s', hs'⟩ := (ih h.2 s₁).mpr hl
      exact ⟨s', s₁, hs, hs'⟩

end Checks

/-! ## Dictionaries -/

section Dicts

variable {κ α : Type} [DecidableEq κ] {d : Dict κ α} {k : κ} {a : α}

theorem index_eq_ok : index d k = .ok a ↔ d.lookup k = some a := by
  unfold index
  cases d.lookup k <;> simp

theorem mem_keys_iff : k ∈ d.keys ↔ ∃ a, d.lookup k = some a := by
  rw [← AList.mem_keys, ← AList.lookup_isSome, Option.isSome_iff_exists]

theorem comprehension_eq_ok {f : κ → Checked α} {g : κ → α} {keys : List κ}
    (h : ∀ k ∈ keys, f k = .ok (g k)) :
    ∃ d, comprehension keys f = .ok d ∧
      ∀ k, d.lookup k = if k ∈ keys then some (g k) else none := by
  suffices hfold : ∀ d₀ : Dict κ α,
      ∃ d, keys.foldlM (fun d k => do return d.insert k (← f k)) d₀ = Except.ok d ∧
        ∀ k, d.lookup k = if k ∈ keys then some (g k) else d₀.lookup k by
    simpa [comprehension] using hfold ∅
  induction keys with
  | nil => exact fun d₀ => ⟨d₀, rfl, by simp⟩
  | cons key keys ih =>
    intro d₀
    obtain ⟨d, hd, hlookup⟩ :=
      ih (fun k hk => h k (List.mem_cons_of_mem _ hk)) (d₀.insert key (g key))
    refine ⟨d, ?_, fun k => ?_⟩
    · rw [List.foldlM_cons, h key List.mem_cons_self]
      exact hd
    · rw [hlookup k]
      by_cases hk : k ∈ keys
      · simp [hk]
      · rcases eq_or_ne k key with rfl | hne
        · simp [hk]
        · simp [hk, hne]

/-- The value of a key, zero where there is none. -/
def price (p : Dict κ ℚ) (k : κ) : ℚ := (p.lookup k).getD 0

/-- A sum over the items is a sum over the keys, and over any set of keys that has them all. -/
theorem sum_entries (p : Dict κ ℚ) (g : κ → ℚ) {s : Finset κ} (h : ∀ k ∈ p.keys, k ∈ s) :
    (p.entries.map fun e => e.2 * g e.1).sum = ∑ k ∈ s, price p k * g k := by
  have hentries : (p.entries.map fun e => e.2 * g e.1) =
      p.keys.map fun k => price p k * g k := by
    rw [AList.keys, List.keys, List.map_map]
    refine List.map_congr_left fun e he => ?_
    have hlookup : p.lookup e.1 = some e.2 := AList.mem_lookup_iff.mpr he
    simp [price, hlookup]
  rw [hentries, ← List.sum_toFinset _ p.keys_nodup]
  refine sum_subset (fun k hk => h k (List.mem_toFinset.mp hk)) fun k _ hk => ?_
  have hnone : p.lookup k = none := by
    rw [List.mem_toFinset, ← AList.mem_keys] at hk
    exact AList.lookup_eq_none.mpr hk
  rw [price, hnone, Option.getD_none, zero_mul]

end Dicts

/-! ## The transportation problem -/

section Problem

variable (source target : FiniteMeasure) (metric : GroundMetric) (plan : TransportPlan)

/-- What a plan sends from `x` to `y`. -/
def TransportPlan.amount (x y : String) : ℚ := price plan.flow (x, y)

def problem : Transportation String String ℚ where
  sources := source.support.toFinset
  targets := target.support.toFinset
  supply := price source.mass
  demand := price target.mass
  cost := metric.call

/-- Nothing negative is sent, and only from the source's points to the target's, with the masses
of the source leaving and those of the target arriving. -/
structure RightMarginals : Prop where
  nonneg : ∀ x y, 0 ≤ plan.amount x y
  known : ∀ l ∈ plan.flow.keys, l.1 ∈ source.support ∧ l.2 ∈ target.support
  row : ∀ x ∈ source.support,
    ∑ y ∈ target.support.toFinset, plan.amount x y = price source.mass x
  col : ∀ y ∈ target.support,
    ∑ x ∈ source.support.toFinset, plan.amount x y = price target.mass y

variable {source target metric plan}

theorem RightMarginals.isPlan (h : RightMarginals source target plan) :
    (problem source target metric).IsPlan plan.amount where
  nonneg := fun x _ y _ => h.nonneg x y
  row := fun x hx => h.row x (List.mem_toFinset.mp hx)
  col := fun y hy => h.col y (List.mem_toFinset.mp hy)

/-- A sum over the flow is a sum over the lanes. -/
theorem sum_flow (hknown : ∀ l ∈ plan.flow.keys, l.1 ∈ source.support ∧ l.2 ∈ target.support)
    (g : String → String → ℚ) :
    (plan.flow.entries.map fun e => e.2 * g e.1.1 e.1.2).sum =
      ∑ x ∈ source.support.toFinset, ∑ y ∈ target.support.toFinset, plan.amount x y * g x y := by
  rw [sum_entries plan.flow (fun l => g l.1 l.2)
    (s := source.support.toFinset ×ˢ target.support.toFinset) fun l hl => ?_]
  · exact sum_product _ _ _
  · simpa using hknown l hl

theorem primalValue_eq
    (hknown : ∀ l ∈ plan.flow.keys, l.1 ∈ source.support ∧ l.2 ∈ target.support) :
    primalValue plan metric = (problem source target metric).value plan.amount :=
  sum_flow hknown metric.call

theorem sum_filter_eq {ι : Type} (l : List ι) (p : ι → Prop) [DecidablePred p] (f : ι → ℚ) :
    ((l.filter fun i => p i).map f).sum = (l.map fun i => f i * if p i then 1 else 0).sum := by
  induction l with
  | nil => rfl
  | cons i l ih =>
    by_cases hi : p i <;> simp [hi, ih]

theorem rowSum_eq (hknown : ∀ l ∈ plan.flow.keys, l.1 ∈ source.support ∧ l.2 ∈ target.support)
    {x : String} (hx : x ∈ source.support) :
    rowSum plan x = ∑ y ∈ target.support.toFinset, plan.amount x y := by
  rw [rowSum, sum_filter_eq plan.flow.entries (fun e => e.1.1 = x) Sigma.snd,
    sum_flow hknown fun x' _ => if x' = x then 1 else 0]
  simp only [mul_ite, mul_one, mul_zero]
  rw [sum_comm]
  exact sum_congr rfl fun y _ => by simp [hx]

theorem colSum_eq (hknown : ∀ l ∈ plan.flow.keys, l.1 ∈ source.support ∧ l.2 ∈ target.support)
    {y : String} (hy : y ∈ target.support) :
    colSum plan y = ∑ x ∈ source.support.toFinset, plan.amount x y := by
  rw [colSum, sum_filter_eq plan.flow.entries (fun e => e.1.2 = y) Sigma.snd,
    sum_flow hknown fun _ y' => if y' = y then 1 else 0]
  simp only [mul_ite, mul_one, mul_zero]
  exact sum_congr rfl fun x _ => by simp [hy]

theorem sortedSet_eq_nil {l : List String} : sortedSet l = [] ↔ l = [] := by
  rw [sortedSet, ← List.length_eq_zero_iff, List.length_insertionSort, List.length_eq_zero_iff,
    List.dedup_eq_nil]

/-- Each mass is the sum it should be, said of the items and of the points. -/
theorem forall_entries_iff {m : FiniteMeasure} {f : String → ℚ} :
    (∀ e ∈ m.mass.entries, f e.1 = e.2) ↔ ∀ x ∈ m.support, f x = price m.mass x := by
  constructor
  · intro h x hx
    obtain ⟨a, ha⟩ := mem_keys_iff.mp hx
    rw [price, ha, Option.getD_some]
    exact h ⟨x, a⟩ (AList.mem_lookup_iff.mp ha)
  · intro h e he
    have ha : m.mass.lookup e.1 = some e.2 := AList.mem_lookup_iff.mpr he
    rw [h e.1 (mem_keys_iff.mpr ⟨e.2, ha⟩), price, ha, Option.getD_some]

theorem forall_values_iff : (∀ q ∈ values plan.flow, 0 ≤ q) ↔ ∀ x y, 0 ≤ plan.amount x y := by
  constructor
  · intro h x y
    unfold TransportPlan.amount price
    cases ha : plan.flow.lookup (x, y) with
    | none => exact le_rfl
    | some a => exact h a (List.mem_map.mpr ⟨⟨(x, y), a⟩, AList.mem_lookup_iff.mp ha, rfl⟩)
  · intro h q hq
    obtain ⟨e, he, rfl⟩ := List.mem_map.mp hq
    have ha : plan.flow.lookup e.1 = some e.2 := AList.mem_lookup_iff.mpr he
    simpa [TransportPlan.amount, price, ha] using h e.1.1 e.1.2

/-- `verifyMarginals` accepts the plans with the right marginals. -/
theorem verifyMarginals_eq_ok {R : Interpreter} :
    verifyMarginals R plan source target = .ok () ↔ RightMarginals source target plan := by
  have hsources : (plan.flow.keys.map Prod.fst).filter (· ∉ source.support) = [] ↔
      ∀ l ∈ plan.flow.keys, l.1 ∈ source.support := by
    simp only [List.filter_eq_nil_iff, List.forall_mem_map]
    simp
  have htargets : (plan.flow.keys.map Prod.snd).filter (· ∉ target.support) = [] ↔
      ∀ l ∈ plan.flow.keys, l.2 ∈ target.support := by
    simp only [List.filter_eq_nil_iff, List.forall_mem_map]
    simp
  simp only [verifyMarginals, bind_eq_ok, require_eq_ok, forM_eq_ok, sortedSet_eq_nil, hsources,
    htargets, forall_values_iff, exists_const]
  constructor
  · rintro ⟨hnonneg, ⟨hleft, hright⟩, hrow, hcol⟩
    have hknown : ∀ l ∈ plan.flow.keys, l.1 ∈ source.support ∧ l.2 ∈ target.support :=
      fun l hl => ⟨hleft l hl, hright l hl⟩
    refine ⟨hnonneg, hknown, fun x hx => ?_, fun y hy => ?_⟩
    · rw [← rowSum_eq hknown hx]
      exact forall_entries_iff.mp hrow x hx
    · rw [← colSum_eq hknown hy]
      exact forall_entries_iff.mp hcol y hy
  · intro h
    refine ⟨h.nonneg, ⟨fun l hl => (h.known l hl).1, fun l hl => (h.known l hl).2⟩, ?_, ?_⟩
    · exact forall_entries_iff.mpr fun x hx => (rowSum_eq h.known hx).trans (h.row x hx)
    · exact forall_entries_iff.mpr fun y hy => (colSum_eq h.known hy).trans (h.col y hy)

end Problem

/-! ## Potentials -/

section Potentials

variable {R : Interpreter} {source target : FiniteMeasure} {metric : GroundMetric}
  {plan : TransportPlan} {potential : DualPotential}

theorem mem_lanes {l : String × String} :
    l ∈ lanes R source target ↔ l.1 ∈ source.support ∧ l.2 ∈ target.support := by
  rw [lanes, List.mem_product, (R.setOrder_perm _).mem_iff, (R.setOrder_perm _).mem_iff]

/-- A potential has a price for each point of the supports, and no other. -/
structure Covers (source target : FiniteMeasure) (potential : DualPotential) : Prop where
  left : ∀ x, x ∈ potential.u.keys ↔ x ∈ source.support
  right : ∀ y, y ∈ potential.v.keys ↔ y ∈ target.support

theorem index_eq_price {p : Dict String ℚ} {x : String} (h : x ∈ p.keys) :
    index p x = .ok (price p x) := by
  obtain ⟨a, ha⟩ := mem_keys_iff.mp h
  rw [index_eq_ok.mpr ha, price, ha, Option.getD_some]

theorem Covers.reducedCost_eq (h : Covers source target potential) {l : String × String}
    (hl : l.1 ∈ source.support ∧ l.2 ∈ target.support) :
    reducedCost potential metric l =
      .ok (metric.call l.1 l.2 - price potential.u l.1 - price potential.v l.2) := by
  rw [reducedCost, index_eq_price ((h.left l.1).mpr hl.1), index_eq_price ((h.right l.2).mpr hl.2)]
  rfl

/-- `verifyDualFeasibility` accepts the potentials that cover the supports and are a dual. -/
theorem verifyDualFeasibility_ok_iff :
    (∃ m, verifyDualFeasibility R potential source target metric = .ok m) ↔
      Covers source target potential ∧
        (problem source target metric).IsDual (price potential.u) (price potential.v) := by
  have hcovers : (potential.u.keys.toFinset = source.support.toFinset ∧
      potential.v.keys.toFinset = target.support.toFinset) ↔ Covers source target potential := by
    simp only [Finset.ext_iff, List.mem_toFinset]
    exact ⟨fun h => ⟨h.1, h.2⟩, fun h => ⟨h.left, h.right⟩⟩
  have hdual : (problem source target metric).IsDual (price potential.u) (price potential.v) ↔
      ∀ l ∈ lanes R source target,
        0 ≤ metric.call l.1 l.2 - price potential.u l.1 - price potential.v l.2 := by
    constructor
    · intro h l hl
      obtain ⟨hx, hy⟩ := mem_lanes.mp hl
      have hle : price potential.u l.1 + price potential.v l.2 ≤ metric.call l.1 l.2 :=
        h l.1 (List.mem_toFinset.mpr hx) l.2 (List.mem_toFinset.mpr hy)
      linarith
    · intro h x hx y hy
      have hle := h (x, y) (mem_lanes.mpr ⟨List.mem_toFinset.mp hx, List.mem_toFinset.mp hy⟩)
      change price potential.u x + price potential.v y ≤ metric.call x y
      linarith
  simp only [verifyDualFeasibility, bind_eq_ok, require_eq_ok, hcovers, exists_and_left,
    exists_const]
  refine and_congr_right fun h => ?_
  rw [hdual]
  refine foldlM_ok_iff (fun l hl maxSlack => ?_) 0
  rw [h.reducedCost_eq (mem_lanes.mp hl)]
  simp [bind_eq_ok, pure, Except.pure]

/-- Nothing is refused when every lane in use is met exactly. -/
theorem verifyComplementarity_ok (h : Covers source target potential)
    (hmarginals : RightMarginals source target plan)
    (hcomp : (problem source target metric).Complementary plan.amount (price potential.u)
      (price potential.v)) :
    ∃ n, verifyComplementarity R plan potential source target metric = .ok n := by
  have hcosts : ∀ l ∈ lanes R source target, reducedCost potential metric l =
      .ok (metric.call l.1 l.2 - price potential.u l.1 - price potential.v l.2) :=
    fun l hl => h.reducedCost_eq (mem_lanes.mp hl)
  obtain ⟨slack, hslack, hlookup⟩ := comprehension_eq_ok hcosts
  rw [verifyComplementarity, reducedCosts, hslack]
  refine (foldlM_ok_iff (C := fun _ => True) (fun e he active => ?_) 0).mpr fun _ _ => trivial
  refine iff_true_intro ?_
  have hamount : plan.flow.lookup e.1 = some e.2 := AList.mem_lookup_iff.mpr he
  have hl := hmarginals.known e.1 (mem_keys_iff.mpr ⟨_, hamount⟩)
  split
  · rename_i hpos
    have htight : price potential.u e.1.1 + price potential.v e.1.2 = metric.call e.1.1 e.1.2 :=
      hcomp.tight e.1.1 (List.mem_toFinset.mpr hl.1) e.1.2 (List.mem_toFinset.mpr hl.2)
        (by simpa [TransportPlan.amount, price, hamount] using hpos)
    have hzero : slack.lookup e.1 = some 0 := by
      rw [hlookup e.1, if_pos (mem_lanes.mpr hl), ← htight]
      simp
    rw [index_eq_ok.mpr hzero]
    simp [bind_eq_ok, pure, Except.pure]
  · exact ⟨active, rfl⟩

theorem dualTerm_eq {m : FiniteMeasure} {p : Dict String ℚ} (h : ∀ x ∈ m.support, x ∈ p.keys) :
    dualTerm m p = .ok (∑ x ∈ m.support.toFinset, price m.mass x * price p x) := by
  have hsum : ∀ (l : List ((_ : String) × ℚ)) (total : ℚ), (∀ e ∈ l, e.1 ∈ p.keys) →
      l.foldlM (fun total e => do return total + e.2 * (← index p e.1)) total =
        (.ok (total + (l.map fun e => e.2 * price p e.1).sum) : Checked ℚ) := by
    intro l
    induction l with
    | nil => exact fun total _ => by simp [pure, Except.pure]
    | cons e l ih =>
      intro total hl
      rw [List.forall_mem_cons] at hl
      rw [List.foldlM_cons, index_eq_price hl.1, List.map_cons, List.sum_cons, ← add_assoc]
      exact ih _ hl.2
  rw [dualTerm, hsum _ _ fun e he => h e.1 (List.mem_map_of_mem he), zero_add,
    sum_entries m.mass (price p) fun x hx => List.mem_toFinset.mpr hx]
  rfl

theorem Covers.dualValue_eq (h : Covers source target potential) (metric : GroundMetric) :
    dualValue potential source target = .ok
      ((problem source target metric).dualValue (price potential.u) (price potential.v)) := by
  rw [dualValue, dualTerm_eq fun x hx => (h.left x).mpr hx,
    dualTerm_eq fun y hy => (h.right y).mpr hy]
  rfl

end Potentials

/-! ## `verify` -/

section Verify

variable {R : Interpreter} {source target : FiniteMeasure} {metric : GroundMetric}
  {plan : TransportPlan} {potential : DualPotential}

/-- No plan of the same marginals costs less. -/
def CheapestPlan (source target : FiniteMeasure) (metric : GroundMetric) (plan : TransportPlan) :
    Prop :=
  ∀ other, RightMarginals source target other → primalValue plan metric ≤ primalValue other metric

/-- Whatever can be carried on the lanes is the flow of a plan. -/
theorem exists_plan {π : String → String → ℚ} (h : (problem source target metric).IsPlan π) :
    ∃ other, RightMarginals source target other ∧
      primalValue other metric = (problem source target metric).value π := by
  obtain ⟨d, -, hlookup⟩ := comprehension_eq_ok
    (f := fun k : String × String => (.ok (π k.1 k.2) : Checked ℚ)) fun k
      (_ : k ∈ (source.support.toFinset ×ˢ target.support.toFinset).toList) => rfl
  simp only [mem_toList, mem_product, List.mem_toFinset] at hlookup
  have hamount : ∀ x ∈ source.support, ∀ y ∈ target.support,
      TransportPlan.amount ⟨d⟩ x y = π x y := fun x hx y hy => by
    rw [TransportPlan.amount, price, hlookup, if_pos ⟨hx, hy⟩, Option.getD_some]
  have hright : RightMarginals source target ⟨d⟩ := by
    refine ⟨fun x y => ?_, fun l hl => ?_, fun x hx => ?_, fun y hy => ?_⟩
    · rw [TransportPlan.amount, price, hlookup]
      split
      · rename_i hl
        exact h.nonneg x (List.mem_toFinset.mpr hl.1) y (List.mem_toFinset.mpr hl.2)
      · exact le_rfl
    · obtain ⟨a, ha⟩ := mem_keys_iff.mp hl
      by_contra hout
      rw [hlookup, if_neg hout] at ha
      cases ha
    · rw [sum_congr rfl fun y hy => hamount x hx y (List.mem_toFinset.mp hy)]
      exact h.row x (List.mem_toFinset.mpr hx)
    · rw [sum_congr rfl fun x hx => hamount x (List.mem_toFinset.mp hx) y hy]
      exact h.col y (List.mem_toFinset.mpr hy)
  refine ⟨⟨d⟩, hright, ?_⟩
  rw [primalValue_eq hright.known]
  refine sum_congr rfl fun x hx => sum_congr rfl fun y hy => ?_
  rw [hamount x (List.mem_toFinset.mp hx) y (List.mem_toFinset.mp hy)]

theorem cheapestPlan_iff (h : RightMarginals source target plan) :
    CheapestPlan source target metric plan ↔
      (problem source target metric).Cheapest plan.amount := by
  unfold CheapestPlan
  rw [primalValue_eq h.known]
  constructor
  · intro hcheapest π hπ
    obtain ⟨other, hother, hvalue⟩ := exists_plan hπ
    exact hvalue ▸ hcheapest other hother
  · intro hcheapest other hother
    rw [primalValue_eq hother.known]
    exact hcheapest _ hother.isPlan

/-- `verify` accepts no plan that another undercuts. -/
theorem cheapest_of_verify {w : IndependentWitness}
    (h : verify R plan potential source target metric = .ok w) :
    RightMarginals source target plan ∧ CheapestPlan source target metric plan := by
  simp only [verify, bind_eq_ok, require_eq_ok] at h
  obtain ⟨_, hmarginals, m, hfeasible, _, -, dual, hdual, _, hgap, -⟩ := h
  have hright := verifyMarginals_eq_ok.mp hmarginals
  obtain ⟨hcovers, hisDual⟩ := verifyDualFeasibility_ok_iff.mp ⟨m, hfeasible⟩
  refine ⟨hright, (cheapestPlan_iff hright).mpr (hisDual.cheapest ?_)⟩
  rw [hcovers.dualValue_eq metric] at hdual
  rw [← primalValue_eq hright.known, Except.ok.inj hdual]
  exact sub_eq_zero.mp hgap

/-- `verify` accepts a plan with prices that are met exactly on its lanes in use. -/
theorem verify_of_complementary (hright : RightMarginals source target plan)
    (hcovers : Covers source target potential)
    (hcomp : (problem source target metric).Complementary plan.amount (price potential.u)
      (price potential.v)) :
    ∃ w, verify R plan potential source target metric = .ok w := by
  obtain ⟨m, hfeasible⟩ := (verifyDualFeasibility_ok_iff (R := R)).mpr ⟨hcovers, hcomp.dual⟩
  obtain ⟨n, hactive⟩ := verifyComplementarity_ok (R := R) hcovers hright hcomp
  have hgap := hright.isPlan.value_eq_dualValue hcomp
  rw [← primalValue_eq hright.known] at hgap
  refine ⟨⟨engineId, primalValue plan metric, primalValue plan metric, 0, m, n⟩, ?_⟩
  simp only [verify, bind_eq_ok, require_eq_ok]
  refine ⟨(), verifyMarginals_eq_ok.mpr hright, m, hfeasible, n, hactive, _,
    hcovers.dualValue_eq metric, (), sub_eq_zero.mpr hgap, ?_⟩
  rw [← hgap, sub_self]
  rfl

end Verify

end GymAct.Kantorovich
