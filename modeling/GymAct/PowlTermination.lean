import GymAct.PowlMarking
import Mathlib.Algebra.BigOperators.Fin
import Mathlib.Algebra.Order.BigOperators.Group.Finset
import Mathlib.Tactic.Linarith
import Mathlib.Tactic.Ring

/-!
# Runs are finite

Completed paths, cursors and rounds are forgotten and gathered again without end; visits are
not. `firesBound` is how many leaves a node can fire between two purges of it, and `spent` how
much of that a position has used up : what the rounds of a partial order cost, and what the
visits of the children of a choice graph cost, less what the current child has left. A step
spends one at least (`Fires.spent_lt`) and no position has spent more than the bound
(`spent_le`).

`fire_terminates` : the length of a run is bounded by the model and `max_node_visits` alone.
-/

namespace GymAct.Powl

open Position

/-- The visits of one child, or rounds of one composite, that a cap allows. -/
def roundsBound (cap : ℤ) : ℕ := max 1 cap.toNat

/-- How many leaves a node can fire before it is purged. -/
def firesBound (cap : ℤ) : PowlNode → ℕ
  | .partialOrder _ children _ => (roundsBound cap + 1) * ∑ i, firesBound cap (children i)
  | .choiceGraph _ children _ => ∑ i, roundsBound cap * firesBound cap (children i)
  | _ => 1

open Classical in
/-- How much of its bound a node has used up. -/
noncomputable def spent (cap : ℤ) : PowlNode → Position → ℤ
  | .partialOrder _ children _, p =>
    (p []).rounds * ∑ i, (firesBound cap (children i) : ℤ) + ∑ i, spent cap (children i) (p.child i)
  | .choiceGraph n children _, p =>
    ∑ i : Fin n, (p []).visits i * (firesBound cap (children i) : ℤ) -
      match (p []).cursor with
      | none => 0
      | some i =>
        if h : i < n then firesBound cap (children ⟨i, h⟩) - spent cap (children ⟨i, h⟩) (p.child i)
        else 0
  | _, p => if (p []).done then 1 else 0

/-- The counters of a node and its descendants keep to the cap. -/
def Capped (cap : ℤ) : PowlNode → Position → Prop
  | .partialOrder _ children _, p =>
    (p []).rounds ≤ (p []).visits (-1) ∧ (p []).rounds ≤ roundsBound cap ∧
      (0 < (p []).rounds → InProgress p → ((p []).visits (-1) : ℤ) < cap) ∧
      ∀ i, Capped cap (children i) (p.child i)
  | .choiceGraph n children _, p =>
    (∀ i : Fin n, (p []).visits i ≤ roundsBound cap) ∧ ∀ i, Capped cap (children i) (p.child i)
  | _, _ => True

variable {cap : ℤ}

theorem Capped.clear : ∀ {node : PowlNode} {p : Position}, Capped cap node p →
    Capped cap node (clear p)
  | .start, _, _ | .finish, _, _ | .silent, _, _ | .atom _, _, _ => trivial
  | .partialOrder n children body, p, h => by
    refine ⟨Nat.zero_le _, Nat.zero_le _, fun hpos => absurd hpos (lt_irrefl 0), fun i => ?_⟩
    exact (h.2.2.2 i).clear
  | .choiceGraph n children body, p, h => ⟨h.1, fun i => (h.2 i).clear⟩

/-- No position has spent more than the bound. -/
theorem spent_le : ∀ {node : PowlNode} {p : Position}, Capped cap node p →
    spent cap node p ≤ firesBound cap node
  | .start, p, _ | .finish, p, _ | .silent, p, _ | .atom _, p, _ => by
    unfold spent firesBound
    split <;> simp
  | .partialOrder n children body, p, h => by
    obtain ⟨-, hrounds, -, hchildren⟩ := h
    have hsum : ∑ i, spent cap (children i) (p.child i) ≤
        ∑ i, (firesBound cap (children i) : ℤ) :=
      Finset.sum_le_sum fun i _ => spent_le (hchildren i)
    have hnonneg : 0 ≤ ∑ i, (firesBound cap (children i) : ℤ) :=
      Finset.sum_nonneg fun i _ => Int.natCast_nonneg _
    have hmul : ((p []).rounds : ℤ) * ∑ i, (firesBound cap (children i) : ℤ) ≤
        roundsBound cap * ∑ i, (firesBound cap (children i) : ℤ) :=
      mul_le_mul_of_nonneg_right (by exact_mod_cast hrounds) hnonneg
    rw [spent, firesBound]
    push_cast
    linarith
  | .choiceGraph n children body, p, h => by
    obtain ⟨hvisits, hchildren⟩ := h
    have hsum : ∑ i : Fin n, ((p []).visits i : ℤ) * (firesBound cap (children i) : ℤ) ≤
        ∑ i, (roundsBound cap : ℤ) * (firesBound cap (children i) : ℤ) :=
      Finset.sum_le_sum fun i _ =>
        mul_le_mul_of_nonneg_right (by exact_mod_cast hvisits i) (Int.natCast_nonneg _)
    rw [spent, firesBound]
    push_cast
    split
    · linarith
    · next i _ =>
      split
      · next hi =>
        have := spent_le (hchildren ⟨i, hi⟩)
        linarith
      · linarith

/-- A purge leaves nothing negative behind. -/
theorem spent_clear_nonneg : ∀ (node : PowlNode) (p : Position), 0 ≤ spent cap node (clear p)
  | .start, p | .finish, p | .silent, p | .atom _, p => by
    unfold spent
    split <;> simp
  | .partialOrder n children body, p => by
    have hsum : 0 ≤ ∑ i, spent cap (children i) ((clear p).child i) :=
      Finset.sum_nonneg fun i _ => spent_clear_nonneg (children i) (p.child i)
    simpa [spent, Position.clear, Cell.clear] using hsum
  | .choiceGraph n children body, p => by
    have hsum : 0 ≤ ∑ i : Fin n, ((p []).visits i : ℤ) * (firesBound cap (children i) : ℤ) :=
      Finset.sum_nonneg fun i _ => by positivity
    simpa [spent, Position.clear, Cell.clear] using hsum

/-! ## Banking a round -/

section Bank

variable {n : ℕ} {children : Fin n → PowlNode} {p : Position}

theorem RoundOpen.visits_lt {body : OrderBody}
    (hopen : RoundOpen (some cap) body.frequency p)
    (h : Capped cap (.partialOrder n children body) p) (hpos : 0 < (p []).rounds) :
    ((p []).visits (-1) : ℤ) < cap := by
  by_cases hprogress : InProgress p
  · exact h.2.2.1 hpos hprogress
  · exact hopen.under hpos hprogress cap rfl

theorem capped_close_partialOrder {body : OrderBody}
    (hvisits : (p []).rounds ≤ (p []).visits (-1)) (hrounds : (p []).rounds ≤ roundsBound cap)
    (hunder : 0 < (p []).rounds → ((p []).visits (-1) : ℤ) < cap)
    (hchildren : ∀ i : Fin n, Capped cap (children i) (p.child i)) :
    Capped cap (.partialOrder n children body) (close (.partialOrder n children body) p) := by
  unfold close
  split
  · refine ⟨by simpa [banked, Cell.visit, Cell.clear] using hvisits, ?_, ?_, fun i => ?_⟩
    · simp only [banked, Cell.visit, Trie.relabel_nil]
      rcases Nat.eq_zero_or_pos (p []).rounds with hzero | hpos
      · rw [hzero]
        exact le_max_left _ _
      · have := hunder hpos
        unfold roundsBound
        omega
    · exact fun _ hprogress => absurd hprogress (not_inProgress_banked p)
    · exact (hchildren i).clear
  · exact ⟨hvisits, hrounds, fun hpos _ => hunder hpos, hchildren⟩

theorem capped_close_choiceGraph {body : ChoiceBody}
    (h : Capped cap (.choiceGraph n children body) p) :
    Capped cap (.choiceGraph n children body) (close (.choiceGraph n children body) p) := by
  unfold close
  split
  · refine ⟨fun i => ?_, fun i => (h.2 i).clear⟩
    have hne : (i.val : ℤ) ≠ -1 := by omega
    simpa [banked, Cell.visit, Cell.clear, hne] using h.1 i
  · exact h

/-- A banked round counts for all its children could fire. -/
theorem spent_le_close_partialOrder {body : OrderBody}
    (hchildren : ∀ i : Fin n, Capped cap (children i) (p.child i)) :
    spent cap (.partialOrder n children body) p ≤
      spent cap (.partialOrder n children body) (close (.partialOrder n children body) p) := by
  unfold close
  split
  · have hfull : ∑ i, spent cap (children i) (p.child i) ≤
        ∑ i, (firesBound cap (children i) : ℤ) :=
      Finset.sum_le_sum fun i _ => spent_le (hchildren i)
    have hclear : 0 ≤ ∑ i : Fin n, spent cap (children i) ((banked p).child i) :=
      Finset.sum_nonneg fun i _ => spent_clear_nonneg (children i) (p.child i)
    have hrounds : (banked p []).rounds = (p []).rounds + 1 := rfl
    rw [spent, spent, hrounds]
    push_cast
    linarith
  · exact le_rfl

theorem spent_le_close_choiceGraph {body : ChoiceBody}
    (hchildren : ∀ i : Fin n, Capped cap (children i) (p.child i)) :
    spent cap (.choiceGraph n children body) p ≤
      spent cap (.choiceGraph n children body) (close (.choiceGraph n children body) p) := by
  unfold close
  split
  · have hvisits : ∀ i : Fin n, (banked p []).visits i = (p []).visits i := fun i => by
      have hne : (i.val : ℤ) ≠ -1 := by omega
      simp [banked, Cell.visit, Cell.clear, hne]
    have hcursor : (banked p []).cursor = none := rfl
    rw [spent, spent, hcursor]
    simp only [hvisits]
    refine sub_le_sub_left ?_ _
    split
    · exact le_rfl
    · split
      · next hi => exact sub_nonneg.mpr (spent_le (hchildren ⟨_, hi⟩))
      · exact le_rfl
  · exact le_rfl

end Bank

/-! ## One step -/

/-- A step keeps to the cap and spends. -/
theorem Fires.spent_lt {node : PowlNode} {p q : Position} {path : NodePath}
    (h : Fires (some cap) node p path q) (hp : Capped cap node p) :
    Capped cap node q ∧ spent cap node p < spent cap node q := by
  induction h with
  | @leaf node p hleaf hdone =>
    cases node with
    | partialOrder | choiceGraph => simp at hleaf
    | _ => exact ⟨trivial, by simp [spent, hdone, mark]⟩
  | @branch n children body p q path i hopen hi hpred h ih =>
    obtain ⟨hq, hlt⟩ := ih (hp.2.2.2 i)
    have hchildren : ∀ j : Fin n, Capped cap (children j) ((p.graft i.val q).child j) :=
      forall_child_graft hp.2.2.2 hq
    refine ⟨capped_close_partialOrder hp.1 hp.2.1 (hopen.visits_lt hp) hchildren,
      lt_of_lt_of_le ?_ (spent_le_close_partialOrder hchildren)⟩
    have hle : ∀ j : Fin n, spent cap (children j) (p.child j) ≤
        spent cap (children j) ((p.graft i.val q).child j) :=
      forall_child_graft (P := fun j c => spent cap (children j) (p.child j) ≤ spent cap (children j) c)
        (fun _ => le_rfl) hlt.le
    have hsum := Finset.sum_lt_sum (fun j _ => hle j)
      ⟨i, Finset.mem_univ i, by rwa [Trie.child_graft_self]⟩
    rw [spent, spent, Trie.graft_nil]
    linarith
  | @inside n children body p q path i hopen hcursor hi h ih =>
    obtain ⟨hq, hlt⟩ := ih (hp.2 i)
    have hchildren : ∀ j : Fin n, Capped cap (children j) ((p.graft i.val q).child j) :=
      forall_child_graft hp.2 hq
    refine ⟨capped_close_choiceGraph ⟨hp.1, hchildren⟩,
      lt_of_lt_of_le ?_ (spent_le_close_choiceGraph hchildren)⟩
    rw [spent, spent, Trie.graft_nil, hcursor]
    simp only [i.isLt, dif_pos, Fin.eta, Trie.child_graft_self]
    linarith
  | @enter n children body p q path i hopen hcandidate hunder h ih =>
    obtain ⟨hq, hlt⟩ := ih (hp.2 i).clear
    have hchildren : ∀ j : Fin n, Capped cap (children j) ((p.graft i.val q).child j) :=
      forall_child_graft hp.2 hq
    have hvisits : ∀ j : Fin n, (select (p.graft i.val q) i []).visits j =
        (p []).visits j + if j = i then 1 else 0 := fun j => by
      simp [select, Cell.visit, Fin.val_inj]
    have hcapped : Capped cap (.choiceGraph n children body) (select (p.graft i.val q) i) := by
      refine ⟨fun j => ?_, hchildren⟩
      rw [hvisits]
      split
      · next hj =>
        have := hunder cap rfl
        subst hj
        unfold roundsBound
        omega
      · exact hp.1 j
    refine ⟨capped_close_choiceGraph hcapped,
      lt_of_lt_of_le ?_ (spent_le_close_choiceGraph hcapped.2)⟩
    -- the child entered pays for its whole bound, less what it has left
    have hnew : spent cap (.choiceGraph n children body) (select (p.graft i.val q) i) =
        ∑ j : Fin n, ((p []).visits j : ℤ) * (firesBound cap (children j) : ℤ) +
          spent cap (children i) q := by
      have hcursor : (select (p.graft i.val q) i []).cursor = some i.val := rfl
      have hsum : ∑ j : Fin n, ((select (p.graft i.val q) i []).visits j : ℤ) *
          (firesBound cap (children j) : ℤ) =
          ∑ j : Fin n, ((p []).visits j : ℤ) * (firesBound cap (children j) : ℤ) +
            firesBound cap (children i) := by
        simp [hvisits, add_mul, Finset.sum_add_distrib]
      rw [spent, hcursor, hsum]
      simp only [i.isLt, dif_pos, Fin.eta, child_select, Trie.child_graft_self]
      ring
    have hold : spent cap (.choiceGraph n children body) p ≤
        ∑ j : Fin n, ((p []).visits j : ℤ) * (firesBound cap (children j) : ℤ) := by
      rw [spent]
      refine sub_le_self _ ?_
      split
      · exact le_rfl
      · split
        · next hj => exact sub_nonneg.mpr (spent_le (hp.2 ⟨_, hj⟩))
        · exact le_rfl
    have hpos : 0 ≤ spent cap (children i) (clear (p.child i)) := spent_clear_nonneg _ _
    linarith

section Run

variable {K : PowlCanon} {model : PowlNode} {bound : ExecutionBound}
  {calls : List (NodePath × String)} {m : Marking}

theorem capped_initial : ∀ (node : PowlNode) (path : NodePath),
    Capped cap node (initialMarking.position.sub path)
  | .start, _ | .finish, _ | .silent, _ | .atom _, _ => trivial
  | .partialOrder n children body, path => by
    refine ⟨by simp [initialMarking, Marking.roundsAt], by simp [initialMarking, Marking.roundsAt],
      fun hpos => by simp [initialMarking, Marking.roundsAt] at hpos, fun i => ?_⟩
    rw [Trie.child_sub]
    exact capped_initial (children i) _
  | .choiceGraph n children body, path => by
    refine ⟨fun i => by simp [initialMarking], fun i => ?_⟩
    rw [Trie.child_sub]
    exact capped_initial (children i) _

theorem FireRun.length_le_spent (h : FireRun K model bound calls m) :
    Capped bound.maxNodeVisits model m.position ∧
      (calls.length : ℤ) ≤ spent bound.maxNodeVisits model m.position := by
  induction h with
  | nil =>
    have hclear : clear initialMarking.position = initialMarking.position := by
      funext r
      simp [Position.clear, Cell.clear, initialMarking, Marking.roundsAt]
    refine ⟨capped_initial model [], ?_⟩
    rw [← hclear]
    exact spent_clear_nonneg model _
  | snoc _ hfire ih =>
    obtain ⟨hcapped, hlt⟩ := (fires_of_fire hfire).spent_lt ih.1
    refine ⟨hcapped, ?_⟩
    rw [List.length_append, List.length_singleton]
    omega

/-- A run is no longer than the bound of its model. -/
theorem FireRun.length_le (h : FireRun K model bound calls m) :
    calls.length ≤ firesBound bound.maxNodeVisits model := by
  obtain ⟨hcapped, hlen⟩ := h.length_le_spent
  have := spent_le hcapped
  omega

end Run

/-- The length of a run is bounded by the model and its visit cap. -/
theorem fire_terminates (model : PowlNode) (maxNodeVisits : ℤ) :
    ∃ N : ℕ, ∀ (K : PowlCanon) (bound : ExecutionBound) (calls : List (NodePath × String))
      (m : Marking), bound.maxNodeVisits = maxNodeVisits → FireRun K model bound calls m →
        calls.length ≤ N :=
  ⟨firesBound maxNodeVisits model, fun _ _ _ _ hcap h => hcap ▸ h.length_le⟩

theorem fire_terminates_loop : ∃ N : ℕ,
    (∀ calls m, FireRun .reference loopModel { maxNodeVisits := 2 } calls m → calls.length ≤ N) ∧
      ∃ m, fireAll .reference loopModel { maxNodeVisits := 2 }
        [([0], ""), ([1], ""), ([1], ""), ([2], "")] initialMarking = .ok m ∧ 4 ≤ N := by
  obtain ⟨N, hN⟩ := fire_terminates loopModel 2
  obtain ⟨m, hm⟩ := Fallible.exists_eq_ok_of_isOk
    (x := fireAll .reference loopModel { maxNodeVisits := 2 }
    [([0], ""), ([1], ""), ([1], ""), ([2], "")] initialMarking) (by decide +kernel)
  exact ⟨N, fun calls m h => hN .reference _ calls m rfl h, m, hm,
    hN .reference _ _ m rfl (fireRun_iff.mpr hm)⟩

end GymAct.Powl
