import GymAct.DistinctKeys
import Mathlib.Algebra.Order.BigOperators.Group.List
import Mathlib.Algebra.Order.Floor.Ring
import Mathlib.Data.List.Sort
import Mathlib.Data.Prod.Lex
import Mathlib.Data.Rat.Floor
import Mathlib.Tactic.Linarith
import Mathlib.Tactic.Ring

/-!
# Largest remainders

`apportion` rounds the shares of an integer total down and gives what remains, one each, to the
largest remainders. The parts sum to the total (`sum_apportion`), and each is within one of its
exact share (`abs_sub_lt_one`): what remains is the sum of the remainders, which are less than one,
so that there are as many positive ones.
-/

set_option linter.unusedSectionVars false

namespace LargestRemainder

open DistinctKeys

/-! ## Apportionment -/

variable {κ : Type*} [LinearOrder κ]

/-- `l[:n]`, where a negative `n` counts from the end. -/
def sliceTo {α : Type*} (l : List α) (n : ℤ) : List α :=
  l.take (if 0 ≤ n then n.toNat else (l.length + n).toNat)

/-- The exact share of the total. -/
def raw (total : ℤ) (share : κ × ℚ) : ℚ := share.2 * total

def floors (total : ℤ) (shares : List (κ × ℚ)) : List (κ × ℤ) :=
  shares.map fun share => (share.1, ⌊raw total share⌋)

/-- What the floors leave. -/
def remaining (total : ℤ) (shares : List (κ × ℚ)) : ℤ :=
  total - ((floors total shares).map Prod.snd).sum

def remainderKey (total : ℤ) (share : κ × ℚ) : ℚ ×ₗ κ :=
  toLex (raw total share - ⌊raw total share⌋, share.1)

/-- The largest remainder first. -/
def remainderOrder (total : ℤ) (shares : List (κ × ℚ)) : List (κ × ℚ) :=
  shares.insertionSort fun a b => remainderKey total b ≤ remainderKey total a

/-- The keys of the parts that are one more than their floor. -/
def increased (total : ℤ) (shares : List (κ × ℚ)) : List κ :=
  sliceTo ((remainderOrder total shares).map Prod.fst) (remaining total shares)

def apportion (total : ℤ) (shares : List (κ × ℚ)) : List (κ × ℤ) :=
  (floors total shares).map fun part =>
    (part.1, if part.1 ∈ increased total shares then part.2 + 1 else part.2)

variable {total : ℤ} {shares shares' : List (κ × ℚ)}

theorem keys_apportion : (apportion total shares).map Prod.fst = shares.map Prod.fst := by
  simp [apportion, floors, Function.comp_def]

theorem sum_fract (total : ℤ) (shares : List (κ × ℚ)) :
    (shares.map fun share => Int.fract (raw total share)).sum =
      (shares.map Prod.snd).sum * total - ((floors total shares).map Prod.snd).sum := by
  induction shares with
  | nil => simp [floors]
  | cons share shares ih =>
    have hfract : Int.fract (raw total share) = share.2 * total - ⌊raw total share⌋ := rfl
    simp only [floors, List.map_cons, List.sum_cons, Int.cast_add] at ih ⊢
    rw [ih, hfract]
    ring

/-- What remains is the sum of the remainders. -/
theorem cast_remaining (hsum : (shares.map Prod.snd).sum = 1) :
    (remaining total shares : ℚ) = (shares.map fun share => Int.fract (raw total share)).sum := by
  rw [sum_fract, hsum, one_mul, remaining, Int.cast_sub]

theorem remaining_nonneg (hsum : (shares.map Prod.snd).sum = 1) : 0 ≤ remaining total shares := by
  have hcast : (0 : ℚ) ≤ remaining total shares := by
    rw [cast_remaining hsum]
    refine List.sum_nonneg fun value hvalue => ?_
    obtain ⟨share, -, rfl⟩ := List.mem_map.mp hvalue
    exact Int.fract_nonneg _
  exact_mod_cast hcast

/-- There are as many positive remainders as remain. -/
theorem remaining_le_countP (hsum : (shares.map Prod.snd).sum = 1) :
    remaining total shares ≤ shares.countP fun share => 0 < Int.fract (raw total share) := by
  have hle : (shares.map fun share => Int.fract (raw total share)).sum ≤
      (shares.countP fun share => 0 < Int.fract (raw total share) : ℕ) := by
    clear hsum
    induction shares with
    | nil => simp
    | cons share shares ih =>
      rw [List.map_cons, List.sum_cons, List.countP_cons]
      rcases (Int.fract_nonneg (raw total share)).eq_or_lt with hzero | hpos
      · simpa [← hzero] using ih
      · have hlt := Int.fract_lt_one (raw total share)
        simp only [hpos, decide_true, if_true]
        push_cast
        linarith
  rw [← cast_remaining hsum] at hle
  exact_mod_cast hle

theorem remainderOrder_perm (total : ℤ) (shares : List (κ × ℚ)) :
    (remainderOrder total shares).Perm shares := List.perm_insertionSort _ _

/-- A larger remainder comes earlier. -/
theorem pairwise_remainderOrder (total : ℤ) (shares : List (κ × ℚ)) :
    (remainderOrder total shares).Pairwise fun a b => remainderKey total b ≤ remainderKey total a := by
  have : Std.Total fun a b : κ × ℚ => remainderKey total b ≤ remainderKey total a :=
    ⟨fun a b => le_total _ _⟩
  have : IsTrans (κ × ℚ) fun a b => remainderKey total b ≤ remainderKey total a :=
    ⟨fun a b c hab hbc => hbc.trans hab⟩
  exact List.pairwise_insertionSort _ _

theorem fract_le_of_remainderKey_le {a b : κ × ℚ} (h : remainderKey total a ≤ remainderKey total b) :
    Int.fract (raw total a) ≤ Int.fract (raw total b) := by
  rcases Prod.Lex.toLex_le_toLex.mp h with hlt | ⟨heq, -⟩
  · exact hlt.le
  · exact heq.le

/-- Among the first, there are only positive remainders. -/
theorem fract_pos_of_mem_take (hsum : (shares.map Prod.snd).sum = 1) {share : κ × ℚ}
    (h : share ∈ (remainderOrder total shares).take (remaining total shares).toNat) :
    0 < Int.fract (raw total share) := by
  by_contra hzero
  obtain ⟨before, after, hsplit⟩ := List.append_of_mem h
  have horder : remainderOrder total shares = before ++ share :: (after ++
      (remainderOrder total shares).drop (remaining total shares).toNat) := by
    conv_lhs => rw [← List.take_append_drop (remaining total shares).toNat
      (remainderOrder total shares), hsplit]
    simp
  have hlater : ∀ other ∈ share :: (after ++
      (remainderOrder total shares).drop (remaining total shares).toNat),
      ¬0 < Int.fract (raw total other) := by
    have hsorted := pairwise_remainderOrder total shares
    rw [horder] at hsorted
    have htail := List.pairwise_cons.mp (List.pairwise_append.mp hsorted).2.1
    intro other hother
    rcases List.mem_cons.mp hother with rfl | hother
    · exact hzero
    · have hle := fract_le_of_remainderKey_le (htail.1 other hother)
      exact fun hpos => hzero (hpos.trans_le hle)
  have hcount : (remainderOrder total shares).countP (fun s => 0 < Int.fract (raw total s)) ≤
      before.length := by
    have hnone : (share :: (after ++ (remainderOrder total shares).drop
        (remaining total shares).toNat)).countP (fun s => 0 < Int.fract (raw total s)) = 0 :=
      List.countP_eq_zero.mpr fun other hother => by simpa using hlater other hother
    rw [horder, List.countP_append, hnone, add_zero]
    exact List.countP_le_length
  have hshort : before.length < (remaining total shares).toNat := by
    have hlength := congrArg List.length hsplit
    rw [List.length_take, List.length_append, List.length_cons] at hlength
    omega
  have hpositive : remaining total shares ≤
      shares.countP fun share => 0 < Int.fract (raw total share) := remaining_le_countP hsum
  rw [← (remainderOrder_perm total shares).countP_eq] at hpositive
  omega

/-! ### The parts -/

theorem increased_eq (hsum : (shares.map Prod.snd).sum = 1) : increased total shares =
    ((remainderOrder total shares).take (remaining total shares).toNat).map Prod.fst := by
  rw [increased, sliceTo, if_pos (remaining_nonneg hsum), List.map_take]

theorem length_increased (hsum : (shares.map Prod.snd).sum = 1) :
    ((increased total shares).length : ℤ) = remaining total shares := by
  have hnonneg : 0 ≤ remaining total shares := remaining_nonneg hsum
  have hle : remaining total shares ≤
      shares.countP fun share => 0 < Int.fract (raw total share) := remaining_le_countP hsum
  have hcount : shares.countP (fun s => 0 < Int.fract (raw total s)) ≤ shares.length :=
    List.countP_le_length
  rw [increased_eq hsum, List.length_map, List.length_take, (remainderOrder_perm total shares).length_eq]
  omega

theorem fract_pos_of_mem_increased (hsum : (shares.map Prod.snd).sum = 1)
    (hnodup : (shares.map Prod.fst).Nodup) {share : κ × ℚ} (hshare : share ∈ shares)
    (h : share.1 ∈ increased total shares) : 0 < Int.fract (raw total share) := by
  rw [increased_eq hsum] at h
  obtain ⟨other, hother, hkey⟩ := List.mem_map.mp h
  have hmem : other ∈ shares :=
    (remainderOrder_perm total shares).mem_iff.mp (List.mem_of_mem_take hother)
  obtain rfl : other = share := List.inj_on_of_nodup_map hnodup hmem hshare hkey
  exact fract_pos_of_mem_take hsum hother

/-- Each part is within one of its exact share. -/
theorem abs_sub_lt_one (hsum : (shares.map Prod.snd).sum = 1)
    (hnodup : (shares.map Prod.fst).Nodup) {k : κ} {n : ℤ} (h : (k, n) ∈ apportion total shares) :
    ∃ share, (k, share) ∈ shares ∧ |(n : ℚ) - share * total| < 1 := by
  obtain ⟨part, hpart, heq⟩ := List.mem_map.mp h
  obtain ⟨⟨k', share⟩, hshare, rfl⟩ := List.mem_map.mp hpart
  obtain ⟨rfl, rfl⟩ := Prod.mk.inj heq
  refine ⟨share, hshare, ?_⟩
  have hfract : Int.fract (raw total (k', share)) = share * total - ⌊raw total (k', share)⌋ := rfl
  have hlt := Int.fract_lt_one (raw total (k', share))
  have hnonneg := Int.fract_nonneg (raw total (k', share))
  dsimp only
  rw [abs_lt]
  split
  · next hmem =>
    have hpos := fract_pos_of_mem_increased hsum hnodup hshare hmem
    push_cast
    constructor <;> linarith
  · constructor <;> linarith

/-- The same by the key, which may have no share. -/
theorem abs_lookup_sub_lt_one (hsum : (shares.map Prod.snd).sum = 1)
    (hnodup : (shares.map Prod.fst).Nodup) (k : κ) :
    |((((apportion total shares).lookup k).getD 0 : ℤ) : ℚ) - (shares.lookup k).getD 0 * total| <
      1 := by
  cases hshare : shares.lookup k with
  | none =>
    have hpart : (apportion total shares).lookup k = none :=
      lookup_eq_none_iff.mpr (by rw [keys_apportion]; exact lookup_eq_none_iff.mp hshare)
    simp [hpart]
  | some share =>
    have hkey : k ∈ (apportion total shares).map Prod.fst := by
      rw [keys_apportion]
      exact List.mem_map_of_mem (f := Prod.fst) (mem_of_lookup hshare)
    obtain ⟨⟨k, n⟩, hpart, rfl⟩ := List.mem_map.mp hkey
    obtain ⟨other, hother, hnear⟩ := abs_sub_lt_one hsum hnodup hpart
    have hnodup' : ((apportion total shares).map Prod.fst).Nodup := by rwa [keys_apportion]
    have hsame : some other = some share := (lookup_of_mem hnodup hother).symm.trans hshare
    rw [lookup_of_mem hnodup' hpart, ← Option.some.inj hsame]
    exact hnear

theorem part_nonneg (hshares : ∀ share ∈ shares, 0 ≤ share.2) (htotal : 0 ≤ total) {k : κ} {n : ℤ}
    (h : (k, n) ∈ apportion total shares) : 0 ≤ n := by
  obtain ⟨part, hpart, heq⟩ := List.mem_map.mp h
  obtain ⟨share, hshare, rfl⟩ := List.mem_map.mp hpart
  obtain ⟨rfl, rfl⟩ := Prod.mk.inj heq
  have hfloor : 0 ≤ ⌊raw total share⌋ :=
    Int.floor_nonneg.mpr (mul_nonneg (hshares share hshare) (by exact_mod_cast htotal))
  dsimp only
  split <;> omega

theorem sum_increase (keys : List κ) (parts : List (κ × ℤ)) :
    ((parts.map fun part => (part.1, if part.1 ∈ keys then part.2 + 1 else part.2)).map
      Prod.snd).sum = (parts.map Prod.snd).sum + (parts.map Prod.fst).countP fun k => k ∈ keys := by
  induction parts with
  | nil => rfl
  | cons part parts ih =>
    simp only [List.map_cons, List.sum_cons, List.countP_cons] at ih ⊢
    rw [ih]
    by_cases hmem : part.1 ∈ keys
    · simp only [hmem, decide_true, if_true]
      push_cast
      ring
    · simp only [hmem, decide_false, if_false]
      push_cast
      ring

/-- The parts sum to the total. -/
theorem sum_apportion (hsum : (shares.map Prod.snd).sum = 1)
    (hnodup : (shares.map Prod.fst).Nodup) : ((apportion total shares).map Prod.snd).sum = total := by
  have horder : ((remainderOrder total shares).map Prod.fst).Perm (shares.map Prod.fst) :=
    (remainderOrder_perm total shares).map _
  have hsublist : (increased total shares).Sublist ((remainderOrder total shares).map Prod.fst) :=
    List.take_sublist _ _
  have hincreased : ((shares.map Prod.fst).filter fun k => k ∈ increased total shares).Perm
      (increased total shares) := by
    refine (List.perm_ext_iff_of_nodup (hnodup.filter _)
      ((horder.nodup_iff.mpr hnodup).sublist hsublist)).mpr fun k => ?_
    rw [List.mem_filter, decide_eq_true_eq]
    exact ⟨fun h => h.2, fun h => ⟨horder.mem_iff.mp (hsublist.subset h), h⟩⟩
  have hkeys : (floors total shares).map Prod.fst = shares.map Prod.fst := by
    simp [floors, Function.comp_def]
  have hcount : (((floors total shares).map Prod.fst).countP fun k =>
      k ∈ increased total shares : ℤ) = remaining total shares := by
    rw [hkeys, List.countP_eq_length_filter, hincreased.length_eq, length_increased hsum]
  have hparts := sum_increase (increased total shares) (floors total shares)
  rw [hcount, remaining] at hparts
  exact hparts.trans (add_sub_cancel _ _)

/-- The order of the shares does not matter. -/
theorem apportion_perm (hnodup : (shares.map Prod.fst).Nodup) (h : shares'.Perm shares) :
    (apportion total shares').Perm (apportion total shares) := by
  have hfloors : (floors total shares').Perm (floors total shares) := h.map _
  have hremaining : remaining total shares' = remaining total shares :=
    congrArg (total - ·) (hfloors.map Prod.snd).sum_eq
  have horder : remainderOrder total shares' = remainderOrder total shares := by
    refine List.Perm.eq_of_pairwise (fun a b ha hb hab hba => ?_)
      (pairwise_remainderOrder total shares') (pairwise_remainderOrder total shares)
      ((remainderOrder_perm total shares').trans (h.trans (remainderOrder_perm total shares).symm))
    have hkey : remainderKey total a = remainderKey total b := hba.antisymm hab
    have ha' : a ∈ shares := h.mem_iff.mp ((remainderOrder_perm total shares').mem_iff.mp ha)
    have hb' : b ∈ shares := (remainderOrder_perm total shares).mem_iff.mp hb
    exact List.inj_on_of_nodup_map hnodup ha' hb' (Prod.ext_iff.mp (toLex_inj.mp hkey)).2
  unfold apportion increased
  rw [horder, hremaining]
  exact hfloors.map _

end LargestRemainder
