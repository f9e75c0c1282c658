import GymAct.Arrangements
import GymAct.PowlReduction
import Mathlib.Algebra.BigOperators.Group.Finset.Sigma
import Mathlib.Data.Nat.Bitwise

/-!
# Counting linearizations

`count_linearizations` of `powl/witness.py` : a subset dynamic program over the closed order,
whose subsets are bit masks. `counts[mask]` is the number of arrangements of the children in the
mask (`counts_eq`), as every mask is reached from smaller ones only.

`count_linearizations_exact` : the count is the number of the permutations of the children that
keep the order.
-/

namespace GymAct.Powl

open Arrangements Finset

/-! ## `count_linearizations` -/

/-- `required[j]`, the bit mask of the predecessors of a child in the closed order. -/
def required (closure : Finset OrderEdge) (j : ℕ) : ℕ :=
  (closure.filter fun e => e.dst = j).fold (· ||| ·) 0 fun e => 1 <<< e.src

/-- The inner loop : a child that is not in the mask, and whose predecessors are, is added. -/
def countChild (closure : Finset OrderEdge) (mask : ℕ) (counts : ℕ → ℕ) (j : ℕ) : ℕ → ℕ :=
  if mask &&& 1 <<< j ≠ 0 then counts
  else if (required closure j).ldiff mask ≠ 0 then counts
  else Function.update counts (mask ||| 1 <<< j) (counts (mask ||| 1 <<< j) + counts mask)

/-- The pass of the outer loop for a mask. -/
def countMask (closure : Finset OrderEdge) (n : ℕ) (counts : ℕ → ℕ) (mask : ℕ) : ℕ → ℕ :=
  if counts mask = 0 then counts else (List.range n).foldl (countChild closure mask) counts

/-- `counts`, once the masks below `m` have been passed. -/
def countsBelow (closure : Finset OrderEdge) (n m : ℕ) : ℕ → ℕ :=
  (List.range m).foldl (countMask closure n) fun mask => if mask = 0 then 1 else 0

/-- `count_linearizations`. -/
def countLinearizations (node : PowlNode) (exactLimit : ℤ) : Option ℕ :=
  match node with
  | .partialOrder n children body =>
    if exactLimit < n then none
    else if ∃ i, (children i).isLeaf = false then none
    else some (countsBelow body.closure n (1 <<< n) (1 <<< n - 1))
  | .choiceGraph .. => none
  | _ => some 1

/-! ## Masks -/

section Masks

variable {closure : Finset OrderEdge} {n m mask j : ℕ}

/-- The children in a mask. -/
def members (n mask : ℕ) : Finset ℕ := (range n).filter fun j => mask.testBit j = true

/-- What comes before a child. -/
def predecessors (closure : Finset OrderEdge) (j : ℕ) : Finset ℕ :=
  (closure.filter fun e => e.dst = j).image OrderEdge.src

theorem testBit_one_shiftLeft (i j : ℕ) : (1 <<< i : ℕ).testBit j = decide (i = j) := by
  rw [Nat.one_shiftLeft, Nat.testBit_two_pow]

theorem and_shiftLeft_eq_zero_iff : mask &&& 1 <<< j = 0 ↔ mask.testBit j = false := by
  constructor
  · intro h
    have hbit := congrArg (Nat.testBit · j) h
    simpa [Nat.testBit_and, testBit_one_shiftLeft] using hbit
  · intro h
    refine Nat.eq_of_testBit_eq fun i => ?_
    rw [Nat.testBit_and, testBit_one_shiftLeft, Nat.zero_testBit]
    by_cases hij : j = i
    · rw [← hij, h, Bool.false_and]
    · rw [decide_eq_false hij, Bool.and_false]

theorem testBit_required {i : ℕ} :
    (required closure j).testBit i = true ↔ i ∈ predecessors closure j := by
  unfold required predecessors
  induction closure.filter fun e => e.dst = j using Finset.induction_on with
  | empty => simp
  | insert e s he ih =>
    rw [fold_insert he, Nat.testBit_or, Bool.or_eq_true, ih, testBit_one_shiftLeft, image_insert,
      mem_insert, decide_eq_true_eq, eq_comm]

theorem ldiff_required_eq_zero_iff :
    (required closure j).ldiff mask = 0 ↔ ∀ i ∈ predecessors closure j, mask.testBit i = true := by
  constructor
  · intro h i hi
    have hbit := congrArg (Nat.testBit · i) h
    simpa [Nat.testBit_ldiff, testBit_required.mpr hi] using hbit
  · intro h
    refine Nat.eq_of_testBit_eq fun i => ?_
    rw [Nat.testBit_ldiff, Nat.zero_testBit]
    by_cases hi : i ∈ predecessors closure j
    · rw [h i hi, Bool.not_true, Bool.and_false]
    · rw [Bool.eq_false_iff.mpr (mt testBit_required.mp hi), Bool.false_and]

/-- The child may be added to the mask. -/
def Adds (closure : Finset OrderEdge) (mask j : ℕ) : Prop :=
  mask.testBit j = false ∧ ∀ i ∈ predecessors closure j, mask.testBit i = true

instance : Decidable (Adds closure mask j) := inferInstanceAs (Decidable (_ ∧ _))

theorem countChild_apply {counts : ℕ → ℕ} {target : ℕ} : countChild closure mask counts j target =
    counts target + if Adds closure mask j ∧ mask ||| 1 <<< j = target then counts mask else 0 := by
  unfold countChild
  split
  · next h =>
    rw [if_neg fun hadds => h (and_shiftLeft_eq_zero_iff.mpr hadds.1.1), Nat.add_zero]
  · next hbit =>
    have hbit := and_shiftLeft_eq_zero_iff.mp (not_not.mp hbit)
    split
    · next h =>
      rw [if_neg fun hadds => h (ldiff_required_eq_zero_iff.mpr hadds.1.2), Nat.add_zero]
    · next hpre =>
      have hadds : Adds closure mask j := ⟨hbit, ldiff_required_eq_zero_iff.mp (not_not.mp hpre)⟩
      by_cases htarget : mask ||| 1 <<< j = target
      · rw [htarget, Function.update_self, if_pos ⟨hadds, rfl⟩]
      · rw [Function.update_of_ne (Ne.symm htarget), if_neg fun h => htarget h.2, Nat.add_zero]

theorem or_shiftLeft_eq_iff {target : ℕ} (hbit : mask.testBit j = false) :
    mask ||| 1 <<< j = target ↔ target.testBit j = true ∧ mask = target ^^^ 1 <<< j := by
  constructor
  · rintro rfl
    refine ⟨?_, Nat.eq_of_testBit_eq fun i => ?_⟩
    · rw [Nat.testBit_or, testBit_one_shiftLeft, decide_eq_true rfl, Bool.or_true]
    · rw [Nat.testBit_xor, Nat.testBit_or, testBit_one_shiftLeft]
      by_cases hij : j = i
      · rw [← hij, hbit]
        simp
      · simp [hij]
  · rintro ⟨htarget, rfl⟩
    refine Nat.eq_of_testBit_eq fun i => ?_
    rw [Nat.testBit_or, Nat.testBit_xor, testBit_one_shiftLeft]
    by_cases hij : j = i
    · rw [← hij, htarget]
      simp
    · simp [hij]

theorem xor_shiftLeft_lt (h : mask.testBit j = true) : mask ^^^ 1 <<< j < mask := by
  refine Nat.lt_of_testBit j ?_ h fun i hi => ?_
  · rw [Nat.testBit_xor, testBit_one_shiftLeft, h, decide_eq_true rfl, Bool.xor_self]
  · rw [Nat.testBit_xor, testBit_one_shiftLeft, decide_eq_false (Nat.ne_of_lt hi), Bool.xor_false]

/-- A pass over the children of a mask. -/
theorem foldl_countChild {counts : ℕ → ℕ} {target : ℕ} :
    (List.range n).foldl (countChild closure mask) counts target = counts target +
      ∑ j ∈ range n, if Adds closure mask j ∧ mask ||| 1 <<< j = target then counts mask else 0 := by
  induction n generalizing target with
  | zero => simp
  | succ n ih =>
    have hmask : (List.range n).foldl (countChild closure mask) counts mask = counts mask := by
      rw [ih, sum_eq_zero fun j _ => if_neg fun h => ?_, Nat.add_zero]
      have hbit := ((or_shiftLeft_eq_iff h.1.1).mp h.2).1
      rw [h.1.1] at hbit
      cases hbit
    rw [List.range_succ, List.foldl_append, List.foldl_cons, List.foldl_nil, countChild_apply, ih,
      hmask, sum_range_succ, Nat.add_assoc]

theorem countMask_apply {counts : ℕ → ℕ} {target : ℕ} : countMask closure n counts mask target =
    counts target +
      ∑ j ∈ range n, if Adds closure mask j ∧ mask ||| 1 <<< j = target then counts mask else 0 := by
  unfold countMask
  split
  · next hzero => simp [hzero]
  · exact foldl_countChild

end Masks

/-! ## The program -/

section Program

variable {closure : Finset OrderEdge} {n m mask j : ℕ}

/-- The arrangements of the children in a mask. -/
def ways (closure : Finset OrderEdge) (n mask : ℕ) : ℕ :=
  (arrangements (predecessors closure) (members n mask).card (members n mask)).card

theorem members_zero : members n 0 = ∅ := filter_eq_empty_iff.mpr fun j _ => by simp

theorem members_xor (hj : mask.testBit j = true) :
    members n (mask ^^^ 1 <<< j) = (members n mask).erase j := by
  ext i
  simp only [members, mem_erase, mem_filter, mem_range, Nat.testBit_xor, testBit_one_shiftLeft]
  by_cases hij : j = i
  · simp [← hij, hj]
  · simp [hij, Ne.symm hij]

theorem members_nonempty (hmask : mask < 2 ^ n) (hne : mask ≠ 0) : (members n mask).Nonempty := by
  obtain ⟨j, hj⟩ := Nat.exists_testBit_of_ne_zero hne
  have hlt : j < n := by
    by_contra hge
    rw [Nat.testBit_lt_two_pow (hmask.trans_le (Nat.pow_le_pow_right (by omega) (not_lt.mp hge)))] at hj
    cases hj
  exact ⟨j, mem_filter.mpr ⟨mem_range.mpr hlt, hj⟩⟩

/-- The arrangements of a mask, by the child that comes last. -/
theorem ways_eq (hbounded : ∀ e ∈ closure, e.src < n ∧ e.dst < n) (hmask : mask < 2 ^ n) :
    ways closure n mask = (if mask = 0 then 1 else 0) + ∑ j ∈ range n,
      if mask.testBit j = true ∧ Adds closure (mask ^^^ 1 <<< j) j
        then ways closure n (mask ^^^ 1 <<< j) else 0 := by
  by_cases hzero : mask = 0
  · subst hzero
    rw [if_pos rfl, sum_eq_zero fun j _ => if_neg fun h => ?_]
    · rw [ways, members_zero]
      rfl
    · rw [Nat.zero_testBit] at h
      cases h.1
  · obtain ⟨k, hk⟩ := Nat.exists_eq_succ_of_ne_zero (members_nonempty hmask hzero).card_ne_zero
    have hpre (j : ℕ) (hbit : mask.testBit j = true) :
        predecessors closure j ⊆ (members n mask).erase j ↔ Adds closure (mask ^^^ 1 <<< j) j := by
      rw [← members_xor hbit]
      have hself : (mask ^^^ 1 <<< j).testBit j = false := by
        rw [Nat.testBit_xor, testBit_one_shiftLeft, hbit, decide_eq_true rfl, Bool.xor_self]
      refine ⟨fun h => ⟨hself, fun i hi => (mem_filter.mp (h hi)).2⟩, fun h i hi => ?_⟩
      obtain ⟨e, he, rfl⟩ := mem_image.mp hi
      exact mem_filter.mpr ⟨mem_range.mpr (hbounded e (mem_filter.mp he).1).1, h.2 _ hi⟩
    rw [if_neg hzero, Nat.zero_add, ways, hk, card_arrangements_succ, members, sum_filter]
    refine sum_congr rfl fun j hj => ?_
    by_cases hbit : mask.testBit j = true
    · have hmem : j ∈ members n mask := mem_filter.mpr ⟨hj, hbit⟩
      have hcard : ((members n mask).erase j).card = k := by
        rw [card_erase_of_mem hmem, hk, Nat.succ_sub_one]
      have hpre := hpre j hbit
      rw [members] at hpre
      simp only [hbit, if_true, true_and, hpre]
      rw [ways, members_xor hbit, hcard, members]
    · rw [if_neg hbit, if_neg fun h => hbit h.1]

/-- What the masks below `m` add to a mask that is not above them. -/
theorem sum_adds (hm : mask ≤ m) (f : ℕ → ℕ) :
    (∑ mask' ∈ range m, ∑ j ∈ range n,
      if Adds closure mask' j ∧ mask' ||| 1 <<< j = mask then f mask' else 0) =
    ∑ j ∈ range n, if mask.testBit j = true ∧ Adds closure (mask ^^^ 1 <<< j) j
      then f (mask ^^^ 1 <<< j) else 0 := by
  rw [sum_comm]
  refine sum_congr rfl fun j _ => ?_
  have hiff (mask' : ℕ) : (Adds closure mask' j ∧ mask' ||| 1 <<< j = mask) ↔
      mask' = mask ^^^ 1 <<< j ∧ mask.testBit j = true ∧ Adds closure (mask ^^^ 1 <<< j) j := by
    constructor
    · rintro ⟨hadds, hor⟩
      obtain ⟨hbit, rfl⟩ := (or_shiftLeft_eq_iff hadds.1).mp hor
      exact ⟨rfl, hbit, hadds⟩
    · rintro ⟨rfl, hbit, hadds⟩
      exact ⟨hadds, (or_shiftLeft_eq_iff hadds.1).mpr ⟨hbit, rfl⟩⟩
  simp only [hiff]
  split
  · next h =>
    rw [sum_eq_single (mask ^^^ 1 <<< j)]
    · exact if_pos ⟨rfl, h⟩
    · exact fun mask' _ hne => if_neg fun h => hne h.1
    · exact fun hout => absurd (mem_range.mpr ((xor_shiftLeft_lt h.1).trans_le hm)) hout
  · next h => exact sum_eq_zero fun mask' _ => if_neg fun h' => h h'.2

/-- A mask that is not above the passed ones counts its arrangements. -/
theorem counts_eq (hbounded : ∀ e ∈ closure, e.src < n ∧ e.dst < n) :
    ∀ {m : ℕ}, m ≤ 2 ^ n → ∀ mask, mask < 2 ^ n → mask ≤ m →
      countsBelow closure n m mask = ways closure n mask := by
  -- every mask has its initial count and what the passed ones added
  have hadded : ∀ {m : ℕ}, m ≤ 2 ^ n → ∀ mask, countsBelow closure n m mask =
      (if mask = 0 then 1 else 0) + ∑ mask' ∈ range m, ∑ j ∈ range n,
        if Adds closure mask' j ∧ mask' ||| 1 <<< j = mask then ways closure n mask' else 0 := by
    intro m
    induction m with
    | zero => exact fun _ mask => by simp [countsBelow]
    | succ m ih =>
      intro hm mask
      have hself : countsBelow closure n m m = ways closure n m := by
        rw [ih (by omega), sum_adds le_rfl, ways_eq hbounded (by omega)]
      rw [countsBelow, List.range_succ, List.foldl_append, List.foldl_cons, List.foldl_nil]
      change countMask closure n (countsBelow closure n m) m mask = _
      rw [countMask_apply, hself, ih (by omega), sum_range_succ, Nat.add_assoc]
  intro m hm mask hmask hle
  rw [hadded hm, sum_adds hle, ways_eq hbounded hmask]

theorem members_full : members n (2 ^ n - 1) = range n :=
  filter_true_of_mem fun j hj => by
    rw [Nat.testBit_two_pow_sub_one]
    exact decide_eq_true (mem_range.mp hj)

/-- The dynamic program counts the permutations that keep the closure. -/
theorem countsBelow_full (hbounded : ∀ e ∈ closure, e.src < n ∧ e.dst < n) :
    countsBelow closure n (1 <<< n) (1 <<< n - 1) =
      (univ.filter fun σ : Equiv.Perm (Fin n) =>
        ∀ i j : Fin n, ⟨i, j⟩ ∈ closure → σ i < σ j).card := by
  have hpos := Nat.two_pow_pos n
  rw [Nat.one_shiftLeft, counts_eq hbounded le_rfl (2 ^ n - 1) (by omega) (by omega), ways,
    members_full, card_range, card_arrangements_range]
  · have hmem (i j : ℕ) : i ∈ predecessors closure j ↔ (⟨i, j⟩ : OrderEdge) ∈ closure := by
      simp only [predecessors, mem_image, mem_filter]
      exact ⟨fun ⟨e, ⟨he, hdst⟩, hsrc⟩ => hsrc ▸ hdst ▸ he, fun h => ⟨_, ⟨h, rfl⟩, rfl⟩⟩
    simp only [hmem]
  · intro j _ i hi
    obtain ⟨e, he, rfl⟩ := mem_image.mp hi
    exact (hbounded e (mem_filter.mp he).1).1

end Program

/-- `count_linearizations` of a partial order of leaves counts the permutations of its children
that keep the order. -/
theorem count_linearizations_exact {n : ℕ} {children : Fin n → PowlNode} {order : Finset OrderEdge}
    {frequency : Frequency} {body : OrderBody} {exactLimit : ℤ}
    (hnode : PowlNode.mkPartialOrder n children order frequency = .ok (.partialOrder n children body))
    (hleaves : ∀ i, (children i).isLeaf = true) (hlimit : n ≤ exactLimit) :
    (∀ e, e ∈ body.closure ↔ Reaches order e.src e.dst) ∧
      countLinearizations (.partialOrder n children body) exactLimit =
        some (univ.filter fun σ : Equiv.Perm (Fin n) =>
          ∀ i j : Fin n, ⟨i, j⟩ ∈ body.closure → σ i < σ j).card := by
  obtain ⟨-, hclosure, -⟩ := mkPartialOrder_eq_ok_iff.mp hnode
  obtain ⟨hbounded, -, hmem⟩ := transitiveClosure_eq_ok.mp hclosure
  refine ⟨hmem, ?_⟩
  have hleaf : ¬∃ i, (children i).isLeaf = false := by
    rintro ⟨i, hi⟩
    rw [hleaves i] at hi
    cases hi
  rw [countLinearizations, if_neg (not_lt.mpr hlimit), if_neg hleaf, countsBelow_full]
  exact fun e he => lt_of_transGen hbounded ((hmem e).mp he)

/-- One step before two others that are free. -/
def forkBody : OrderBody := { order := {⟨0, 1⟩, ⟨0, 2⟩}, closure := {⟨0, 1⟩, ⟨0, 2⟩} }

theorem count_linearizations_fork :
    countLinearizations (.partialOrder 3 (fun _ => .silent) forkBody) 10 =
      some (univ.filter fun σ : Equiv.Perm (Fin 3) =>
        ∀ i j : Fin 3, ⟨i, j⟩ ∈ forkBody.closure → σ i < σ j).card := by
  have hnode : PowlNode.mkPartialOrder 3 (fun _ => .silent) {⟨0, 1⟩, ⟨0, 2⟩} once =
      .ok (.partialOrder 3 (fun _ => .silent) forkBody) :=
    mkPartialOrder_eq_ok_iff.mpr
      ⟨by decide, by decide +kernel, by decide +kernel, rfl, by decide +kernel⟩
  exact (count_linearizations_exact hnode (fun _ => rfl) (by decide)).2

end GymAct.Powl
