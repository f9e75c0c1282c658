import Mathlib.Algebra.Order.Group.Unbundled.Basic
import Mathlib.Algebra.Order.Monoid.WithTop
import Mathlib.Data.Finset.Card
import Mathlib.Data.Finset.Image
import Mathlib.Logic.Function.Iterate
import Mathlib.Tactic.Abel

/-!
# Shortest labels

Weighted arcs, the walks along them, and the labels that passes of relaxation over the arcs give.
An arc reads as a difference constraint, that the value at its end is at most the value at its
start and its weight : `Solves`.

With walks over at most `n` vertices and no closed walk of negative cost, `n - 1` passes settle
every arc (`settled_passes`). So the constraints have a solution just when no closed walk has
negative cost (`exists_solves_iff`).
-/

set_option linter.unusedSectionVars false

namespace ShortestLabels

/-- An arc with its weight. -/
@[ext]
structure Arc (V K : Type*) where
  src : V
  dst : V
  weight : K

variable {V K : Type*} [AddCommGroup K]

/-- A walk along the arcs, with the number of its arcs and its cost. -/
inductive Walk (arcs : List (Arc V K)) : V → V → ℕ → K → Prop
  | nil (v : V) : Walk arcs v v 0 0
  | snoc {a : V} {n : ℕ} {c : K} {e : Arc V K} :
      Walk arcs a e.src n c → e ∈ arcs → Walk arcs a e.dst (n + 1) (c + e.weight)

variable {arcs : List (Arc V K)} {a b v : V} {m n : ℕ} {c c' : K} {e : Arc V K}

namespace Walk

theorem cast (h : Walk arcs a b n c) (hn : m = n) (hc : c' = c) : Walk arcs a b m c' :=
  hn ▸ hc ▸ h

theorem append (h : Walk arcs a b m c) (h' : Walk arcs b v n c') :
    Walk arcs a v (m + n) (c + c') := by
  induction h' with
  | nil => exact h.cast rfl (add_zero c)
  | snoc _ he ih => exact (ih.snoc he).cast rfl (add_assoc _ _ _).symm

theorem single (he : e ∈ arcs) : Walk arcs e.src e.dst 1 e.weight :=
  ((Walk.nil e.src).snoc he).cast rfl (zero_add _).symm

/-- A walk stays among the vertices of the arcs. -/
theorem dst_mem (h : Walk arcs a b n c) {S : Finset V} (hS : ∀ e ∈ arcs, e.src ∈ S ∧ e.dst ∈ S)
    (ha : a ∈ S) : b ∈ S := by
  cases h with
  | nil => exact ha
  | snoc _ he => exact (hS _ he).2

theorem src_mem (h : Walk arcs a b n c) {S : Finset V} (hS : ∀ e ∈ arcs, e.src ∈ S ∧ e.dst ∈ S)
    (hb : b ∈ S) : a ∈ S := by
  induction h with
  | nil => exact hb
  | snoc _ he ih => exact ih (hS _ he).1

/-- The vertices of a walk, with the cost up to each of them. -/
theorem trace (h : Walk arcs a b n c) : ∃ (p : ℕ → V) (s : ℕ → K),
    p 0 = a ∧ s 0 = 0 ∧ p n = b ∧ s n = c ∧
      ∀ i j, i ≤ j → j ≤ n → Walk arcs (p i) (p j) (j - i) (s j - s i) := by
  induction h with
  | nil =>
    refine ⟨fun _ => a, fun _ => 0, rfl, rfl, rfl, rfl, fun i j hij hj => ?_⟩
    exact (Walk.nil a).cast (by omega) (sub_self 0)
  | @snoc n c e _ he ih =>
    obtain ⟨p, s, hp, hs, hpn, hsn, hwalk⟩ := ih
    refine ⟨Function.update p (n + 1) e.dst, Function.update s (n + 1) (c + e.weight), by simpa,
      by simpa, by simp, by simp, fun i j hij hj => ?_⟩
    rcases Nat.lt_or_ge n j with hlt | hle
    · obtain rfl : j = n + 1 := by omega
      rcases Nat.lt_or_ge n i with hi | hi
      · obtain rfl : i = n + 1 := by omega
        exact (Walk.nil _).cast (by omega) (sub_self _)
      · have hstep : Walk arcs (p i) e.src (n - i) (c - s i) := by
          simpa [hpn, hsn] using hwalk i n hi le_rfl
        rw [Function.update_self, Function.update_self, Function.update_of_ne (by omega),
          Function.update_of_ne (by omega)]
        exact (hstep.snoc he).cast (by omega) (by abel)
    · rw [Function.update_of_ne (by omega), Function.update_of_ne (by omega),
        Function.update_of_ne (by omega), Function.update_of_ne (by omega)]
      exact hwalk i j hij hle

end Walk

variable [LinearOrder K] [IsOrderedAddMonoid K]

/-- No closed walk has negative cost. -/
def NoNegativeCycle (arcs : List (Arc V K)) : Prop := ∀ v n c, Walk arcs v v n c → 0 ≤ c

/-- A value for each vertex that satisfies the difference constraint of each arc. -/
def Solves (arcs : List (Arc V K)) (φ : V → K) : Prop :=
  ∀ e ∈ arcs, φ e.dst ≤ φ e.src + e.weight

theorem Solves.walk {φ : V → K} (h : Solves arcs φ) (hwalk : Walk arcs a b n c) :
    φ b ≤ φ a + c := by
  induction hwalk with
  | nil => rw [add_zero]
  | @snoc n c e _ he ih =>
    calc φ e.dst ≤ φ e.src + e.weight := h e he
      _ ≤ φ a + c + e.weight := by gcongr
      _ = φ a + (c + e.weight) := add_assoc _ _ _

theorem Solves.noNegativeCycle {φ : V → K} (h : Solves arcs φ) : NoNegativeCycle arcs :=
  fun _ _ _ hwalk => le_add_iff_nonneg_right _ |>.mp (h.walk hwalk)

/-- A walk without its closed parts costs no more. -/
theorem Walk.exists_short (hcycle : NoNegativeCycle arcs) {S : Finset V}
    (hS : ∀ e ∈ arcs, e.src ∈ S ∧ e.dst ∈ S) (ha : a ∈ S) (h : Walk arcs a b n c) :
    ∃ m < S.card, ∃ c' ≤ c, Walk arcs a b m c' := by
  induction n using Nat.strong_induction_on generalizing c with
  | _ n ih =>
    rcases Nat.lt_or_ge n S.card with hlt | hge
    · exact ⟨n, hlt, c, le_rfl, h⟩
    obtain ⟨p, s, hp, hs, hpn, hsn, hwalk⟩ := h.trace
    have hmaps : ∀ i ∈ Finset.range (n + 1), p i ∈ S := fun i hi =>
      (hwalk 0 i (Nat.zero_le i) (by simpa [Nat.lt_succ_iff] using hi)).dst_mem hS (hp ▸ ha)
    -- a vertex comes back, and the walk goes on from its last visit
    obtain ⟨i, j, hij, hj, heq⟩ : ∃ i j, i < j ∧ j ≤ n ∧ p i = p j := by
      obtain ⟨i, hi, j, hj, hne, heq⟩ := Finset.exists_ne_map_eq_of_card_lt_of_maps_to
        (by rw [Finset.card_range]; omega) hmaps
      rw [Finset.mem_range] at hi hj
      rcases Nat.lt_or_ge i j with hij | hij
      · exact ⟨i, j, hij, by omega, heq⟩
      · exact ⟨j, i, by omega, by omega, heq.symm⟩
    have hclosed : 0 ≤ s j - s i := hcycle (p i) (j - i) _ (by
      simpa only [← heq] using hwalk i j hij.le hj)
    have hbefore : Walk arcs a (p j) i (s i) := by
      simpa [hp, hs, heq] using hwalk 0 i (Nat.zero_le i) (by omega)
    have hafter : Walk arcs (p j) b (n - j) (c - s j) := by
      simpa only [hpn, hsn] using hwalk j n hj le_rfl
    obtain ⟨m, hm, c', hc', hshort⟩ := ih (i + (n - j)) (by omega) (hbefore.append hafter)
    refine ⟨m, hm, c', hc'.trans ?_, hshort⟩
    calc s i + (c - s j) = c - (s j - s i) := by abel
      _ ≤ c := sub_le_self c hclosed

/-! ## Relaxation -/

section Relaxation

variable [DecidableEq V]

/-- A label is lowered to what the arc allows. -/
def relax (d : V → WithTop K) (e : Arc V K) : V → WithTop K :=
  if d e.src + e.weight < d e.dst then Function.update d e.dst (d e.src + e.weight) else d

/-- One pass over the arcs. -/
def pass (arcs : List (Arc V K)) (d : V → WithTop K) : V → WithTop K := arcs.foldl relax d

/-- No arc lowers a label. -/
def Settled (arcs : List (Arc V K)) (d : V → WithTop K) : Prop :=
  ∀ e ∈ arcs, d e.dst ≤ d e.src + e.weight

variable {d d' : V → WithTop K}

theorem relax_le (d : V → WithTop K) (e : Arc V K) (v : V) : relax d e v ≤ d v := by
  unfold relax
  split
  · rename_i h
    rcases eq_or_ne v e.dst with rfl | hne
    · rw [Function.update_self]
      exact h.le
    · rw [Function.update_of_ne hne]
  · exact le_rfl

theorem relax_dst_le (d : V → WithTop K) (e : Arc V K) :
    relax d e e.dst ≤ d e.src + e.weight := by
  unfold relax
  split
  · rw [Function.update_self]
  · rename_i h
    exact not_lt.mp h

theorem relax_eq_self (h : d e.dst ≤ d e.src + e.weight) : relax d e = d :=
  if_neg (not_lt.mpr h)

theorem pass_le (arcs : List (Arc V K)) (d : V → WithTop K) (v : V) : pass arcs d v ≤ d v := by
  induction arcs generalizing d with
  | nil => exact le_rfl
  | cons e arcs ih => exact (ih (relax d e)).trans (relax_le d e v)

theorem pass_dst_le (he : e ∈ arcs) (d : V → WithTop K) :
    pass arcs d e.dst ≤ d e.src + e.weight := by
  induction arcs generalizing d with
  | nil => exact absurd he List.not_mem_nil
  | cons e' arcs ih =>
    rcases List.mem_cons.mp he with rfl | he
    · exact (pass_le arcs (relax d e) e.dst).trans (relax_dst_le d e)
    · calc pass arcs (relax d e') e.dst ≤ relax d e' e.src + e.weight := ih he _
        _ ≤ d e.src + e.weight := by
          gcongr
          exact relax_le d e' e.src

theorem pass_eq_self (h : Settled arcs d) : pass arcs d = d := by
  induction arcs with
  | nil => rfl
  | cons e arcs ih =>
    rw [pass, List.foldl_cons, relax_eq_self (h e List.mem_cons_self)]
    exact ih fun e he => h e (List.mem_cons_of_mem _ he)

/-- A pass that changes nothing finds every arc settled. -/
theorem settled_of_pass (h : pass arcs d = d) : Settled arcs d := fun e he => by
  simpa only [h] using pass_dst_le he d

theorem passes_le_of_le (h : m ≤ n) (v : V) : (pass arcs)^[n] d v ≤ (pass arcs)^[m] d v := by
  induction n, h using Nat.le_induction with
  | base => exact le_rfl
  | succ n _ ih =>
    rw [Function.iterate_succ_apply']
    exact (pass_le arcs _ v).trans ih

/-- After `n` passes a label is at most what any walk of `n` arcs costs. -/
theorem Walk.passes_le (h : Walk arcs a b n c) : (pass arcs)^[n] d b ≤ d a + c := by
  induction h with
  | nil => simp
  | @snoc n c e _ he ih =>
    rw [Function.iterate_succ_apply']
    calc pass arcs ((pass arcs)^[n] d) e.dst ≤ (pass arcs)^[n] d e.src + e.weight :=
        pass_dst_le he _
      _ ≤ d a + c + e.weight := by gcongr
      _ = d a + ↑(c + e.weight) := by rw [WithTop.coe_add, add_assoc]

/-- Every label is what a walk costs, from a label that was there at the start. -/
def Sound (arcs : List (Arc V K)) (d d' : V → WithTop K) : Prop :=
  ∀ v (q : K), d' v = q → ∃ a n c, Walk arcs a v n c ∧ d a + c = q

theorem Sound.refl (d : V → WithTop K) : Sound arcs d d := fun v q h =>
  ⟨v, 0, 0, Walk.nil v, by simpa using h⟩

theorem Sound.relax (h : Sound arcs d d') (he : e ∈ arcs) : Sound arcs d (relax d' e) := by
  intro v q hv
  unfold ShortestLabels.relax at hv
  split at hv
  · rcases eq_or_ne v e.dst with rfl | hne
    · rw [Function.update_self] at hv
      have hne : d' e.src ≠ ⊤ := fun htop => by simp [htop] at hv
      obtain ⟨r, hr⟩ := WithTop.ne_top_iff_exists.mp hne
      obtain ⟨a, n, c, hwalk, hc⟩ := h e.src r hr.symm
      refine ⟨a, n + 1, c + e.weight, hwalk.snoc he, ?_⟩
      rw [WithTop.coe_add, ← add_assoc, hc, hr, hv]
    · rw [Function.update_of_ne hne] at hv
      exact h v q hv
  · exact h v q hv

theorem Sound.foldl {es : List (Arc V K)} (h : Sound arcs d d') (hsub : ∀ e ∈ es, e ∈ arcs) :
    Sound arcs d (es.foldl ShortestLabels.relax d') := by
  induction es generalizing d' with
  | nil => exact h
  | cons e es ih =>
    exact ih (h.relax (hsub e List.mem_cons_self)) fun e he => hsub e (List.mem_cons_of_mem _ he)

theorem sound_passes (arcs : List (Arc V K)) (d : V → WithTop K) (n : ℕ) :
    Sound arcs d ((pass arcs)^[n] d) := by
  induction n with
  | zero => exact Sound.refl d
  | succ n ih =>
    rw [Function.iterate_succ_apply']
    exact ih.foldl fun _ he => he

/-- One pass fewer than there are vertices settles every arc. -/
theorem settled_passes (hcycle : NoNegativeCycle arcs) {S : Finset V}
    (hS : ∀ e ∈ arcs, e.src ∈ S ∧ e.dst ∈ S) :
    Settled arcs ((pass arcs)^[S.card - 1] d) := by
  intro e he
  rcases eq_or_ne ((pass arcs)^[S.card - 1] d e.src) ⊤ with htop | hne
  · simp [htop]
  obtain ⟨q, hq⟩ := WithTop.ne_top_iff_exists.mp hne
  obtain ⟨a, n, c, hwalk, hc⟩ := sound_passes arcs d _ e.src q hq.symm
  have ha : a ∈ S := hwalk.src_mem hS (hS e he).1
  obtain ⟨m, hm, c', hc', hshort⟩ := (hwalk.snoc he).exists_short hcycle hS ha
  calc (pass arcs)^[S.card - 1] d e.dst ≤ (pass arcs)^[m] d e.dst :=
      passes_le_of_le (by omega) e.dst
    _ ≤ d a + c' := hshort.passes_le
    _ ≤ d a + ↑(c + e.weight) := by
      gcongr
      exact WithTop.coe_le_coe.mpr hc'
    _ = q + e.weight := by rw [WithTop.coe_add, ← add_assoc, hc]
    _ = (pass arcs)^[S.card - 1] d e.src + e.weight := by rw [hq]

end Relaxation

theorem solves_of_settled [DecidableEq V] {φ : V → K} (h : Settled arcs fun v => φ v) :
    Solves arcs φ := fun e he => by
  simpa [← WithTop.coe_add] using h e he

/-- Difference constraints have a solution just when no closed walk has negative cost. -/
theorem exists_solves_iff : (∃ φ : V → K, Solves arcs φ) ↔ NoNegativeCycle arcs := by
  classical
  refine ⟨fun ⟨_, h⟩ => h.noNegativeCycle, fun hcycle => ?_⟩
  let S := (arcs.map Arc.src).toFinset ∪ (arcs.map Arc.dst).toFinset
  have hS : ∀ e ∈ arcs, e.src ∈ S ∧ e.dst ∈ S := fun e he => by
    simp only [S, Finset.mem_union, List.mem_toFinset, List.mem_map]
    exact ⟨Or.inl ⟨e, he, rfl⟩, Or.inr ⟨e, he, rfl⟩⟩
  let d : V → WithTop K := (pass arcs)^[S.card - 1] fun _ => 0
  have hfinite : ∀ v, d v ≠ ⊤ := fun v =>
    ne_top_of_le_ne_top WithTop.zero_ne_top (passes_le_of_le (Nat.zero_le _) v)
  obtain ⟨φ, hφ⟩ : ∃ φ : V → K, ∀ v, (φ v : WithTop K) = d v :=
    ⟨_, fun v => (WithTop.ne_top_iff_exists.mp (hfinite v)).choose_spec⟩
  have hsettled : Settled arcs d := settled_passes hcycle hS
  exact ⟨φ, solves_of_settled (funext hφ ▸ hsettled)⟩

end ShortestLabels
