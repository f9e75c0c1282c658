import Mathlib.Algebra.BigOperators.Group.List.Basic
import Mathlib.Data.List.TakeDrop
import GymAct.Fallible
import GymAct.FactorySim

/-!
# Exploration in the factory simulation

An exploration finds the truth of its class : the truth is among the dispositions, it is what
survives every challenge, and nothing else survives a rare instance (`explore_finds`). It takes six
evaluations for the truth, at most four for each of the three look-alikes and one for each other
disposition (`explore_evals_le`). It raises only where an epoch has no canonical form
(`explore_ok`).
-/

namespace GymAct

namespace FactorySim

variable {C : Canon} {rank : Ranks} {spec : SimulationSpec} {classId : String} {epoch : ℕ}

/-! ## The names of dispositions -/

theorem twoDigits_value (i : ℕ) : Nat.ofDigitChars 10 (twoDigits i).toList 0 = i := by
  have hvalue : Nat.ofDigitChars 10 (toString i).toList 0 = i := by
    rw [Nat.toString_eq_repr, Nat.toList_repr, Nat.ofDigitChars_ten_toDigits]
  unfold twoDigits
  split
  · rw [String.toList_append, Nat.ofDigitChars_append]
    exact hvalue
  · exact hvalue

theorem twoDigits_injective : Function.Injective twoDigits := fun i j h => by
  rw [← twoDigits_value i, ← twoDigits_value j, h]

theorem dispositions_nodup : (dispositions spec).Nodup := by
  refine List.Nodup.map (fun i j h => twoDigits_injective ?_) List.nodup_range
  exact (String.append_right_inj _).mp h

theorem order_perm : (order rank spec classId epoch).Perm (dispositions spec) :=
  List.perm_insertionSort _ _

theorem exploreOrder_perm : (exploreOrder rank spec classId).Perm (dispositions spec) :=
  List.perm_insertionSort _ _

theorem order_length : (order rank spec classId epoch).length = spec.nDispositions := by
  rw [order_perm.length_eq, dispositions, List.length_map, List.length_range]

/-- The truth comes first in the order of a class. -/
theorem order_eq : order rank spec classId epoch =
    truth rank spec classId epoch :: (order rank spec classId epoch).tail := by
  have hlength : (order rank spec classId epoch).length = spec.nDispositions := order_length
  have hmany := spec.nDispositions_le
  unfold truth
  cases h : order rank spec classId epoch with
  | nil =>
    rw [h] at hlength
    simp only [List.length_nil] at hlength
    omega
  | cons name names => rfl

theorem truth_mem : truth rank spec classId epoch ∈ dispositions spec := by
  have hmem : truth rank spec classId epoch ∈ order rank spec classId epoch := by
    rw [order_eq]
    exact List.mem_cons_self
  exact order_perm.mem_iff.mp hmem

theorem ne_empty_of_mem {name : String} (h : name ∈ dispositions spec) : name ≠ "" := by
  obtain ⟨i, -, rfl⟩ := List.mem_map.mp h
  intro hempty
  have htext := congrArg String.toList hempty
  rw [String.toList_append] at htext
  cases htext

/-! ## Verdicts -/

theorem verdict_truth (kind : String) :
    verdict rank spec classId epoch (truth rank spec classId epoch) kind = true := by
  simp [verdict]

theorem verdict_rare {candidate : String} : verdict rank spec classId epoch candidate "rare" = true ↔
    candidate = truth rank spec classId epoch := by
  simp [verdict]

theorem evaluate_eq_ok {candidate kind : String} {n : ℕ} {out : Bool × String}
    (h : evaluate C rank spec classId epoch candidate kind n = .ok out) :
    out.1 = verdict rank spec classId epoch candidate kind := by
  obtain ⟨d, -, h⟩ := Fallible.bind_eq_ok.mp h
  cases h
  rfl

/-- The largest integer that RFC 8785 admits. -/
def MAX_INTEGER : ℕ := 2 ^ 53 - 1

theorem isCanonical_natCast {n : ℕ} : Value.isCanonical (.int n) = true ↔ n ≤ MAX_INTEGER := by
  unfold MAX_INTEGER
  simp only [Value.isCanonical, decide_eq_true_eq]
  omega

theorem evaluate_ok (hC : C.Total) (hepoch : epoch ≤ MAX_INTEGER) {candidate kind : String} {n : ℕ}
    (hn : n ≤ MAX_INTEGER) : ∃ ref, evaluate C rank spec classId epoch candidate kind n =
      .ok (verdict rank spec classId epoch candidate kind, ref) := by
  have hcanonical : Value.isCanonical (.list [.str classId, .int epoch, .str candidate, .str kind,
      .int n, .bool (verdict rank spec classId epoch candidate kind)]) = true := by
    simp [Value.isCanonical_list_iff, isCanonical_natCast, hepoch, hn]
  obtain ⟨d, hd⟩ := hC.digest hcanonical
  exact ⟨"urn:gymact:sim:eval:" ++ d, by simp only [evaluate, hd]; rfl⟩

/-! ## Challenges -/

section Challenge

variable {candidate : String} {l : List (String × ℕ)} {out : Bool × List String × ℕ}

/-- A candidate survives when every verdict is positive, and leaves a receipt. -/
theorem challenge_eq_ok (h : challenge C rank spec classId epoch candidate l = .ok out) :
    (out.1 = true ↔ ∀ x ∈ l, verdict rank spec classId epoch candidate x.1 = true) ∧
      (l ≠ [] → out.2.1 ≠ []) := by
  induction l generalizing out with
  | nil =>
    cases h
    simp
  | cons x l ih =>
    obtain ⟨kind, n⟩ := x
    obtain ⟨verified, heval, h⟩ := Fallible.bind_eq_ok.mp h
    have hverdict := evaluate_eq_ok heval
    obtain ⟨ok, ref⟩ := verified
    dsimp only at h hverdict
    split at h
    · next hok =>
      obtain ⟨rest, hrest, h⟩ := Fallible.bind_eq_ok.mp h
      cases h
      refine ⟨?_, fun _ => List.cons_ne_nil _ _⟩
      rw [(ih hrest).1, List.forall_mem_cons]
      exact ⟨fun hall => ⟨hverdict ▸ hok, hall⟩, And.right⟩
    · next hok =>
      cases h
      refine ⟨iff_of_false Bool.false_ne_true fun hall => hok ?_, fun _ => List.cons_ne_nil _ _⟩
      rw [hverdict]
      exact hall _ List.mem_cons_self

/-- No more evaluations than challenges, and none after one that fails. -/
theorem challenge_evals_le (h : challenge C rank spec classId epoch candidate l = .ok out) :
    out.2.2 ≤ l.length ∧ ∀ front x back, l = front ++ x :: back →
      verdict rank spec classId epoch candidate x.1 = false → out.2.2 ≤ front.length + 1 := by
  induction l generalizing out with
  | nil =>
    cases h
    exact ⟨le_refl _, fun front x back hl => absurd hl.symm (by simp)⟩
  | cons y l ih =>
    obtain ⟨kind, n⟩ := y
    obtain ⟨verified, heval, h⟩ := Fallible.bind_eq_ok.mp h
    have hverdict := evaluate_eq_ok heval
    obtain ⟨ok, ref⟩ := verified
    dsimp only at h hverdict
    split at h
    · next hok =>
      obtain ⟨rest, hrest, h⟩ := Fallible.bind_eq_ok.mp h
      cases h
      obtain ⟨hlength, hstop⟩ := ih hrest
      refine ⟨by simpa using hlength, fun front x back hl hfails => ?_⟩
      rcases List.append_eq_cons_iff.mp hl.symm with ⟨rfl, hx⟩ | ⟨front', rfl, hl'⟩
      · obtain ⟨rfl, -⟩ := List.cons.inj hx
        rw [← hverdict, hok] at hfails
        cases hfails
      · have hless := hstop front' x back hl' hfails
        simpa using hless
    · cases h
      exact ⟨by simp, fun _ _ _ _ _ => by simp⟩

theorem challenge_ok (hC : C.Total) (hepoch : epoch ≤ MAX_INTEGER)
    (hl : ∀ x ∈ l, x.2 ≤ MAX_INTEGER) :
    ∃ out, challenge C rank spec classId epoch candidate l = .ok out := by
  induction l with
  | nil => exact ⟨_, rfl⟩
  | cons x l ih =>
    obtain ⟨kind, n⟩ := x
    obtain ⟨hn, hl⟩ := List.forall_mem_cons.mp hl
    have heval : ∃ ref, evaluate C rank spec classId epoch candidate kind n =
        .ok (verdict rank spec classId epoch candidate kind, ref) := evaluate_ok hC hepoch hn
    obtain ⟨ref, href⟩ := heval
    obtain ⟨rest, hrest⟩ := ih hl
    rw [challenge, href, Fallible.ok_bind]
    dsimp only
    split
    · rw [hrest]
      exact ⟨_, rfl⟩
    · exact ⟨_, rfl⟩

end Challenge

/-! ## Explorations -/

theorem challenges_rare : ("rare", 0) ∈ challenges := by decide

/-- What survives is the truth. -/
theorem truth_of_survives {candidate : String} {out : Bool × List String × ℕ}
    (h : challenge C rank spec classId epoch candidate challenges = .ok out) (hout : out.1 = true) :
    candidate = truth rank spec classId epoch :=
  verdict_rare.mp ((challenge_eq_ok h).1.mp hout _ challenges_rare)

theorem survives_truth {out : Bool × List String × ℕ}
    (h : challenge C rank spec classId epoch (truth rank spec classId epoch) challenges = .ok out) :
    out.1 = true :=
  (challenge_eq_ok h).1.mpr fun x _ => verdict_truth x.1

/-- The evaluations that a candidate takes at most. -/
def cost (rank : Ranks) (spec : SimulationSpec) (classId : String) (epoch : ℕ) (candidate : String) :
    ℕ :=
  if candidate = truth rank spec classId epoch then 6
  else if candidate ∈ (order rank spec classId epoch).tail.take LOOKALIKES then 4
  else 1

theorem challenge_cost {candidate : String} {out : Bool × List String × ℕ}
    (h : challenge C rank spec classId epoch candidate challenges = .ok out) :
    out.2.2 ≤ cost rank spec classId epoch candidate := by
  obtain ⟨hlength, hstop⟩ := challenge_evals_le h
  unfold cost
  split_ifs with htruth hlike
  · exact hlength
  · have hfails : verdict rank spec classId epoch candidate "rare" = false := by
      rw [Bool.eq_false_iff]
      exact fun hrare => htruth (verdict_rare.mp hrare)
    exact hstop [("common", 0), ("common", 1), ("common", 2)] ("rare", 0) [("rare", 1), ("rare", 2)]
      rfl hfails
  · have hfails : verdict rank spec classId epoch candidate "common" = false := by
      simp [verdict, htruth, hlike]
    exact hstop [] ("common", 0) _ rfl hfails

section Explore

variable {l : List String} {evals : ℕ} {out : String × List String × ℕ}

theorem exploreFrom_eq_ok (h : exploreFrom C rank spec classId epoch l evals = .ok out) :
    out.1 = truth rank spec classId epoch ∧ out.2.1 ≠ [] ∧
      out.2.2 ≤ evals + (l.map (cost rank spec classId epoch)).sum := by
  induction l generalizing evals with
  | nil => cases h
  | cons candidate l ih =>
    obtain ⟨challenged, hchallenge, h⟩ := Fallible.bind_eq_ok.mp h
    have hcost := challenge_cost hchallenge
    have hspec := challenge_eq_ok hchallenge
    have htruth := truth_of_survives hchallenge
    obtain ⟨survived, receipts, count⟩ := challenged
    dsimp only at h hcost hspec htruth
    rw [List.map_cons, List.sum_cons]
    split at h
    · next hsurvived =>
      cases h
      refine ⟨htruth hsurvived, hspec.2 (by decide), ?_⟩
      dsimp only
      omega
    · obtain ⟨hfinds, hreceipts, hevals⟩ := ih h
      exact ⟨hfinds, hreceipts, by omega⟩

theorem exploreFrom_ok (hC : C.Total) (hepoch : epoch ≤ MAX_INTEGER)
    (hl : truth rank spec classId epoch ∈ l) :
    ∃ out, exploreFrom C rank spec classId epoch l evals = .ok out := by
  have hsmall : ∀ x ∈ challenges, x.2 ≤ MAX_INTEGER := by decide
  induction l generalizing evals with
  | nil => exact absurd hl List.not_mem_nil
  | cons candidate l ih =>
    have hchallenge : ∃ out, challenge C rank spec classId epoch candidate challenges = .ok out :=
      challenge_ok hC hepoch hsmall
    obtain ⟨⟨survived, receipts, count⟩, hout⟩ := hchallenge
    rw [exploreFrom, hout, Fallible.ok_bind]
    dsimp only
    split
    · exact ⟨_, rfl⟩
    · next hfails =>
      refine ih ((List.mem_cons.mp hl).resolve_left fun heq => hfails ?_)
      subst heq
      exact survives_truth hout

end Explore

/-- Each disposition once, the truth with six and its look-alikes with four evaluations. -/
theorem sum_cost : ((order rank spec classId epoch).map (cost rank spec classId epoch)).sum =
    spec.nDispositions + 14 := by
  have hnodup : (order rank spec classId epoch).Nodup := order_perm.nodup_iff.mpr dispositions_nodup
  have hlength : (order rank spec classId epoch).length = spec.nDispositions := order_length
  have hmany : 5 ≤ spec.nDispositions := spec.nDispositions_le
  rw [order_eq] at hnodup hlength
  obtain ⟨hfirst, htail⟩ := List.nodup_cons.mp hnodup
  rw [List.length_cons] at hlength
  have hlike : ∀ name ∈ (order rank spec classId epoch).tail.take LOOKALIKES,
      cost rank spec classId epoch name = 4 := fun name hname => by
    have hother : name ≠ truth rank spec classId epoch := fun heq =>
      hfirst (heq ▸ List.mem_of_mem_take hname)
    rw [cost, if_neg hother, if_pos hname]
  have hrest : ∀ name ∈ (order rank spec classId epoch).tail.drop LOOKALIKES,
      cost rank spec classId epoch name = 1 := fun name hname => by
    have hother : name ≠ truth rank spec classId epoch := fun heq =>
      hfirst (heq ▸ List.mem_of_mem_drop hname)
    rw [← List.take_append_drop LOOKALIKES (order rank spec classId epoch).tail] at htail
    rw [cost, if_neg hother, if_neg fun htake => (List.nodup_append.mp htail).2.2 _ htake _ hname rfl]
  have hsum : ∀ {l : List String} {n : ℕ}, (∀ name ∈ l, cost rank spec classId epoch name = n) →
      (l.map (cost rank spec classId epoch)).sum = l.length * n := fun h => by
    rw [List.map_congr_left h, List.map_const', List.sum_replicate_nat]
  have htake := hsum hlike
  have hdrop := hsum hrest
  rw [List.length_take, LOOKALIKES] at htake
  rw [List.length_drop, LOOKALIKES] at hdrop
  have hsplit : ((order rank spec classId epoch).tail.map (cost rank spec classId epoch)).sum =
      (((order rank spec classId epoch).tail.take 3).map (cost rank spec classId epoch)).sum +
        (((order rank spec classId epoch).tail.drop 3).map (cost rank spec classId epoch)).sum := by
    rw [← List.sum_append, ← List.map_append, List.take_append_drop]
  rw [order_eq, List.map_cons, List.sum_cons, hsplit, htake, hdrop, cost, if_pos rfl]
  omega

/-- An exploration finds the truth. -/
theorem explore_eq_ok {out : String × List String × ℕ}
    (h : explore C rank spec classId epoch = .ok out) :
    out.1 = truth rank spec classId epoch ∧ out.2.1 ≠ [] ∧
      out.2.2 ≤ spec.nDispositions + 14 := by
  obtain ⟨hfinds, hreceipts, hevals⟩ := exploreFrom_eq_ok h
  refine ⟨hfinds, hreceipts, hevals.trans ?_⟩
  have hperm : (exploreOrder rank spec classId).Perm (order rank spec classId epoch) :=
    exploreOrder_perm.trans order_perm.symm
  rw [(hperm.map _).sum_eq, sum_cost, Nat.zero_add]

theorem explore_ok (hC : C.Total) (hepoch : epoch ≤ MAX_INTEGER) :
    ∃ out, explore C rank spec classId epoch = .ok out :=
  exploreFrom_ok hC hepoch (exploreOrder_perm.mem_iff.mpr truth_mem)

end FactorySim

end GymAct
