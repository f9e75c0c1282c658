import Mathlib.Logic.Relation
import GymAct.Breadth

/-!
# Dependence

`Acyclic` : no node depends on itself through others. `Acyclic.insert` : a new node that
nothing depends on closes no cycle.

A node is well if its own status is and every node it requires is well; its status is then
`desired` of its own status and of theirs. `sweep` evaluates nodes once each, in some order,
after the own status of one node changed. `Settled.sweep` : this settles every node if the
order starts at that node, visits whatever requires a visited node, visits a node only after
one that it requires, and no node that gets well comes before one that it requires and that
was not well.
-/

namespace Dependence

open Breadth

/-! ## Cycles -/

section Cycles

variable {α : Type*} {r r' : α → α → Prop}

def Acyclic (r : α → α → Prop) : Prop := ∀ a, ¬ Relation.TransGen r a a

theorem Acyclic.mono (h : Acyclic r) (hsub : ∀ a b, r' a b → r a b) : Acyclic r' :=
  fun a ha => h a (Relation.TransGen.mono hsub _ _ ha)

/-- Ranks that fall along the relation. -/
theorem Acyclic.of_rank (rank : α → ℕ) (h : ∀ a b, r a b → rank b < rank a) : Acyclic r := by
  intro a ha
  have hlt {a b : α} (hab : Relation.TransGen r a b) : rank b < rank a := by
    induction hab with
    | single hab => exact h _ _ hab
    | tail _ hcb ih => exact Nat.lt_trans (h _ _ hcb) ih
  exact Nat.lt_irrefl _ (hlt ha)

/-- A new node that no node depends on. -/
theorem Acyclic.insert {n : α} (h : Acyclic r) (hsub : ∀ a b, r' a b → a ≠ n → r a b)
    (hnew : ∀ a, ¬ r' a n) : Acyclic r' := by
  have htarget {a b : α} (hab : Relation.TransGen r' a b) : b ≠ n := by
    rintro rfl
    obtain ⟨c, -, hc⟩ := Relation.TransGen.tail'_iff.mp hab
    exact hnew c hc
  have hold {a b : α} (ha : a ≠ n) (hab : Relation.TransGen r' a b) : Relation.TransGen r a b := by
    induction hab with
    | single hab => exact .single (hsub _ _ hab ha)
    | tail hac hcb ih => exact ih.tail (hsub _ _ hcb (htarget hac))
  exact fun a ha => h a (hold (htarget ha) ha)

end Cycles

/-! ## Statuses -/

section Statuses

variable {α β : Type*} [DecidableEq β] (well ill : β) (requires : α → List α)

/-- The status of a node, of its own status and of those of the nodes it requires. -/
def desired (own effective : α → β) (a : α) : β :=
  if own a ≠ well then own a
  else if ∃ b ∈ requires a, effective b ≠ well then ill
  else well

/-- Every node has the status it should have. -/
def Settled (own effective : α → β) : Prop :=
  ∀ a, effective a = desired well ill requires own effective a

/-- A node requires another, or what requires it does. -/
def Requires (a b : α) : Prop := b ∈ requires a

/-- Every node that a node rests on is well by itself. -/
def Rests (own : α → β) (a : α) : Prop :=
  ∀ b, Relation.ReflTransGen (Requires requires) a b → own b = well

/-- Nodes evaluated one after the other. -/
def sweep [DecidableEq α] (own effective : α → β) : List α → α → β
  | [] => effective
  | a :: nodes =>
    sweep own (Function.update effective a (desired well ill requires own effective a)) nodes

variable {well ill requires} {own own' effective effective' : α → β} {start a b : α}
  {nodes pre post : List α}

theorem desired_congr (hown : own' a = own a)
    (h : (∃ b ∈ requires a, effective' b ≠ well) ↔ ∃ b ∈ requires a, effective b ≠ well) :
    desired well ill requires own' effective' a = desired well ill requires own effective a := by
  simp only [desired, hown, h]

theorem desired_ne (hill : ill ≠ well)
    (h : own a ≠ well ∨ ∃ b ∈ requires a, effective b ≠ well) :
    desired well ill requires own effective a ≠ well := by
  unfold desired
  split_ifs with hown hb
  · exact hown
  · exact hill
  · exact fun _ => hb (h.resolve_left hown)

theorem desired_eq (hown : own a = well) (h : ∀ b ∈ requires a, effective b = well) :
    desired well ill requires own effective a = well := by
  have hall : ¬ ∃ b ∈ requires a, effective b ≠ well := fun ⟨b, hb, hne⟩ => hne (h b hb)
  simp [desired, hown, hall]

omit [DecidableEq β] in
theorem rests_iff : Rests well requires own a ↔ own a = well ∧
    ∀ b ∈ requires a, Rests well requires own b := by
  constructor
  · exact fun h => ⟨h a .refl, fun b hb c hc => h c (.head hb hc)⟩
  · rintro ⟨hown, hall⟩ c hc
    rcases Relation.ReflTransGen.cases_head hc with rfl | ⟨b, hb, hbc⟩
    · exact hown
    · exact hall b hb c hbc

/-- A settled node is not well if one that it rests on is not. -/
theorem Settled.ne_of_not_rests (h : Settled well ill requires own effective) (hill : ill ≠ well)
    (hrests : ¬ Rests well requires own a) : effective a ≠ well := by
  unfold Rests at hrests
  push Not at hrests
  obtain ⟨b, hab, hb⟩ := hrests
  induction hab using Relation.ReflTransGen.head_induction_on with
  | refl =>
    rw [h]
    exact desired_ne hill (Or.inl hb)
  | head hac _ ih =>
    rw [h]
    exact desired_ne hill (Or.inr ⟨_, hac, ih⟩)

/-- A node that rests on an ill one was not well before another node got well. -/
theorem ne_of_not_rests (hill : ill ≠ well) (hsettled : Settled well ill requires own effective)
    (hown : ∀ a, a ≠ start → own' a = own a) (hstart : own' start = well)
    (ha : ¬ Rests well requires own' a) : effective a ≠ well := by
  refine hsettled.ne_of_not_rests hill fun h => ha fun b hb => ?_
  by_cases hbs : b = start
  · exact hbs ▸ hstart
  · exact (hown b hbs).trans (h b hb)

section Sweep

variable [DecidableEq α]

theorem sweep_append (l l' : List α) : sweep well ill requires own effective (l ++ l') =
    sweep well ill requires own (sweep well ill requires own effective l) l' := by
  induction l generalizing effective with
  | nil => rfl
  | cons a l ih => exact ih

theorem sweep_of_notMem (h : a ∉ nodes) : sweep well ill requires own effective nodes a =
    effective a := by
  induction nodes generalizing effective with
  | nil => rfl
  | cons b nodes ih =>
    obtain ⟨hne, hnodes⟩ := not_or.mp (mt List.mem_cons.mpr h)
    rw [sweep, ih hnodes, Function.update_of_ne hne]

/-- A node is evaluated with the statuses that the nodes before it left. -/
theorem sweep_eq (hnodup : (pre ++ a :: post).Nodup) :
    sweep well ill requires own effective (pre ++ a :: post) a =
      desired well ill requires own (sweep well ill requires own effective pre) a := by
  have hpost : a ∉ post := (List.nodup_cons.mp (List.nodup_append'.mp hnodup).2.1).1
  rw [sweep_append, sweep, sweep_of_notMem hpost, Function.update_self]

/-- A node keeps the status it was evaluated to. -/
theorem sweep_pre (hnodup : (pre ++ a :: post).Nodup) (hb : b ∈ pre) :
    sweep well ill requires own effective (pre ++ a :: post) b =
      sweep well ill requires own effective pre b := by
  rw [sweep_append, sweep_of_notMem]
  exact fun hmem => (List.nodup_append'.mp hnodup).2.2 hb hmem

variable (horder : Order (Requires requires) start nodes)

include horder

/-- A visited node rests on the first. -/
theorem reaches_start (ha : a ∈ nodes) :
    Relation.ReflTransGen (Requires requires) a start := by
  refine prefix_induction (P := fun a => Relation.ReflTransGen (Requires requires) a start)
    (fun pre a post h ih => ?_) ha
  by_cases hstart : a = start
  · exact hstart ▸ .refl
  · obtain ⟨b, hb, hab⟩ := horder.parent pre a post h hstart
    exact .head hab (ih b hb)

/-- Nothing that the first node requires is visited. -/
theorem notMem_of_requires (hacyclic : Acyclic (Requires requires))
    (hb : b ∈ requires start) : b ∉ nodes := fun hmem =>
  hacyclic start (.head' hb (reaches_start horder hmem))

/-- A node that is not visited requires no visited one, and keeps its status. -/
theorem sweep_settled_of_notMem (hsettled : Settled well ill requires own effective)
    (hown : own' a = own a) (ha : a ∉ nodes) :
    sweep well ill requires own' effective nodes a =
      desired well ill requires own' (sweep well ill requires own' effective nodes) a := by
  rw [sweep_of_notMem ha, hsettled a]
  refine (desired_congr hown ?_).symm
  refine exists_congr fun b => and_congr_right fun hb => ?_
  rw [sweep_of_notMem fun hmem => ha (horder.closed a b hmem hb)]

/-- Where the first node stays ill, so does every visited one. -/
theorem sweep_settled_of_ill (hill : ill ≠ well) (hacyclic : Acyclic (Requires requires))
    (hstart : sweep well ill requires own' effective nodes start ≠ well) (ha : a ∈ nodes) :
    sweep well ill requires own' effective nodes a =
      desired well ill requires own' (sweep well ill requires own' effective nodes) a := by
  have hall : ∀ b ∈ nodes, sweep well ill requires own' effective nodes b ≠ well := by
    intro b hb
    refine prefix_induction (P := fun b => sweep well ill requires own' effective nodes b ≠ well)
      (fun pre b post h ih => ?_) hb
    by_cases hb : b = start
    · exact hb ▸ hstart
    · obtain ⟨c, hc, hbc⟩ := horder.parent pre b post h hb
      have hne := ih c hc
      have hnodup := h ▸ horder.nodup
      rw [h, sweep_pre hnodup hc] at hne
      rw [h, sweep_eq hnodup]
      exact desired_ne hill (Or.inr ⟨c, hbc, hne⟩)
  obtain ⟨pre, post, h⟩ := List.append_of_mem ha
  have hnodup := h ▸ horder.nodup
  have heq : sweep well ill requires own' effective nodes a =
      desired well ill requires own' (sweep well ill requires own' effective pre) a := by
    rw [h, sweep_eq hnodup]
  rw [heq]
  refine (desired_congr rfl ?_).symm
  by_cases has : a = start
  · -- the first node is evaluated with the old statuses, and nothing it requires changes
    subst has
    obtain rfl := horder.pre_eq_nil h
    refine exists_congr fun b => and_congr_right fun hb => ?_
    rw [sweep_of_notMem (notMem_of_requires horder hacyclic hb)]
    rfl
  · obtain ⟨c, hc, hac⟩ := horder.parent pre a post h has
    have hcne := hall c (h ▸ List.mem_append_left _ hc)
    refine iff_of_true ⟨c, hac, hcne⟩ ⟨c, hac, ?_⟩
    rwa [h, sweep_pre hnodup hc] at hcne

variable (hill : ill ≠ well) (hsettled : Settled well ill requires own effective)
  (hown : ∀ a, a ≠ start → own' a = own a) (hstart : own' start = well)
  (hready : ∀ pre a post, nodes = pre ++ a :: post → Rests well requires own' a →
    ∀ b ∈ requires a, effective b ≠ well → b ∈ pre)

include hill hsettled hown hstart hready in
/-- Where the first node gets well, a visited node is well if all that it rests on is. -/
theorem sweep_eq_well_iff (ha : a ∈ nodes) :
    sweep well ill requires own' effective nodes a = well ↔ Rests well requires own' a := by
  refine prefix_induction (P := fun a => sweep well ill requires own' effective nodes a = well ↔
    Rests well requires own' a) (fun pre a post h ih => ?_) ha
  have hnodup := h ▸ horder.nodup
  have hpre : ∀ b ∈ pre, sweep well ill requires own' effective pre b = well ↔
      Rests well requires own' b := by
    intro b hb
    rw [← sweep_pre hnodup hb, ← h]
    exact ih b hb
  rw [h, sweep_eq hnodup]
  constructor
  · intro heq
    by_contra hrests
    refine desired_ne hill ?_ heq
    by_contra hnone
    push Not at hnone
    refine hrests (rests_iff.mpr ⟨hnone.1, fun b hb => ?_⟩)
    by_cases hmem : b ∈ pre
    · exact (hpre b hmem).mp (hnone.2 b hb)
    · by_contra hb'
      have heqb := hnone.2 b hb
      rw [sweep_of_notMem hmem] at heqb
      exact ne_of_not_rests hill hsettled hown hstart hb' heqb
  · intro hrests
    obtain ⟨howna, hall⟩ := rests_iff.mp hrests
    refine desired_eq howna fun b hb => ?_
    by_cases hmem : b ∈ pre
    · exact (hpre b hmem).mpr (hall b hb)
    · rw [sweep_of_notMem hmem]
      exact not_not.mp fun hne => hmem (hready pre a post h hrests b hb hne)

include hill hsettled hown hstart hready in
theorem sweep_settled_of_well (ha : a ∈ nodes) :
    sweep well ill requires own' effective nodes a =
      desired well ill requires own' (sweep well ill requires own' effective nodes) a := by
  have hiff {b : α} (hb : b ∈ nodes) :=
    sweep_eq_well_iff horder hill hsettled hown hstart hready hb
  obtain ⟨pre, post, h⟩ := List.append_of_mem ha
  have hnodup := h ▸ horder.nodup
  have heq : sweep well ill requires own' effective nodes a =
      desired well ill requires own' (sweep well ill requires own' effective pre) a := by
    rw [h, sweep_eq hnodup]
  by_cases howna : own' a = well
  · by_cases hrests : Rests well requires own' a
    · rw [(hiff ha).mpr hrests]
      refine (desired_eq howna fun b hb => ?_).symm
      by_cases hmem : b ∈ nodes
      · exact (hiff hmem).mpr ((rests_iff.mp hrests).2 b hb)
      · rw [sweep_of_notMem hmem]
        refine not_not.mp fun hne => hmem ?_
        exact h ▸ List.mem_append_left _ (hready pre a post h hrests b hb hne)
    · -- both evaluations find an ill node that this one requires
      have hne := mt (hiff ha).mp hrests
      obtain ⟨b, hb, hbrests⟩ : ∃ b ∈ requires a, ¬ Rests well requires own' b := by
        by_contra hnone
        push Not at hnone
        exact hrests (rests_iff.mpr ⟨howna, hnone⟩)
      have hbne : sweep well ill requires own' effective nodes b ≠ well := by
        by_cases hmem : b ∈ nodes
        · exact mt (hiff hmem).mp hbrests
        · rw [sweep_of_notMem hmem]
          exact ne_of_not_rests hill hsettled hown hstart hbrests
      rw [heq] at hne ⊢
      have hpre : ∃ b ∈ requires a, sweep well ill requires own' effective pre b ≠ well := by
        by_contra hnone
        push Not at hnone
        exact hne (desired_eq howna hnone)
      exact (desired_congr rfl (iff_of_true ⟨b, hb, hbne⟩ hpre)).symm
  · rw [heq]
    simp only [desired, ne_eq, howna, not_false_eq_true, if_true]

end Sweep

/-- Evaluating in order settles every node, if no node that gets well comes before one that it
requires and that was not well. -/
theorem Settled.sweep [DecidableEq α] (hsettled : Settled well ill requires own effective)
    (horder : Order (Requires requires) start nodes) (hacyclic : Acyclic (Requires requires))
    (hill : ill ≠ well) (hown : ∀ a, a ≠ start → own' a = own a)
    (hready : ∀ pre a post, nodes = pre ++ a :: post → Rests well requires own' a →
      ∀ b ∈ requires a, effective b ≠ well → b ∈ pre) :
    Settled well ill requires own' (Dependence.sweep well ill requires own' effective nodes) := by
  intro a
  by_cases ha : a ∈ nodes
  · by_cases hstart : Dependence.sweep well ill requires own' effective nodes start = well
    · have howns : own' start = well := by
        by_contra hne
        obtain ⟨rest, hrest⟩ := horder.head
        have hnodup := hrest ▸ horder.nodup
        rw [hrest, ← List.nil_append (start :: rest), sweep_eq hnodup] at hstart
        exact desired_ne hill (Or.inl hne) hstart
      exact sweep_settled_of_well horder hill hsettled hown howns hready ha
    · exact sweep_settled_of_ill horder hill hacyclic hstart ha
  · have hne : a ≠ start := fun h => ha (h ▸ horder.start_mem)
    exact sweep_settled_of_notMem horder hsettled (hown a hne) ha

end Statuses

end Dependence
