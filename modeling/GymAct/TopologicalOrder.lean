import Mathlib.Data.Finset.Card
import Mathlib.Data.List.Nodup
import Mathlib.Data.Fintype.EquivFin
import Mathlib.Logic.Relation
import Mathlib.Order.WellFounded

/-!
# Sorting by a relation

The nodes of a finite relation are listed one by one, a node only when all that comes before it
is listed. `Sorting` is the invariant of such a listing and of the nodes that are ready to be
listed next; `Sorting.step` lists one of them. What is listed keeps the order of the relation
(`Sorting.pairwise`), and when nothing is ready everything is listed (`Sorting.mem_of_done`).
-/

namespace TopologicalOrder

variable {α : Type*} {R : α → α → Prop} {nodes : Finset α} {out ready ready' : List α} {a b : α}

/-- The nodes listed or ready are those of which all predecessors are listed. -/
structure Sorting (R : α → α → Prop) (nodes : Finset α) (out ready : List α) : Prop where
  nodup : (out ++ ready).Nodup
  mem_iff : ∀ a, a ∈ out ++ ready ↔ a ∈ nodes ∧ ∀ b, R b a → b ∈ out
  pairwise : out.Pairwise fun a b => ¬Relation.TransGen R b a

theorem sorting_init (hnodup : ready.Nodup) (hmem : ∀ a, a ∈ ready ↔ a ∈ nodes ∧ ∀ b, ¬R b a) :
    Sorting R nodes [] ready where
  nodup := hnodup
  mem_iff := fun a => by simpa using hmem a
  pairwise := List.Pairwise.nil

namespace Sorting

theorem mem_nodes (h : Sorting R nodes out ready) (ha : a ∈ out) : a ∈ nodes :=
  ((h.mem_iff a).mp (List.mem_append_left _ ha)).1

/-- What comes before a listed node is listed. -/
theorem closed (h : Sorting R nodes out ready) (ha : a ∈ out) (hba : Relation.TransGen R b a) :
    b ∈ out := by
  induction hba using Relation.TransGen.head_induction_on with
  | single hba => exact ((h.mem_iff a).mp (List.mem_append_left _ ha)).2 _ hba
  | head hbc _ ih => exact ((h.mem_iff _).mp (List.mem_append_left _ ih)).2 _ hbc

/-- What is ready is on no cycle : all that comes before it is listed, and it is not. -/
theorem not_cycle_of_ready (h : Sorting R nodes out ready) (ha : a ∈ ready) :
    ¬Relation.TransGen R a a := by
  intro hcycle
  have hnew : a ∉ out := fun hmem => (List.nodup_append.mp h.nodup).2.2 a hmem a ha rfl
  obtain ⟨b, hab, hba⟩ := Relation.TransGen.tail'_iff.mp hcycle
  have hb : b ∈ out := ((h.mem_iff a).mp (List.mem_append_right _ ha)).2 b hba
  rcases Relation.reflTransGen_iff_eq_or_transGen.mp hab with rfl | hab
  · exact hnew hb
  · exact hnew (h.closed hb hab)

/-- A node that is ready is listed, and the nodes of which it was the last predecessor are ready. -/
theorem step (h : Sorting R nodes out ready) (ha : a ∈ ready) (hnodup : ready'.Nodup)
    (hmem : ∀ b, b ∈ ready' ↔ (b ∈ ready ∧ b ≠ a) ∨
      b ∉ out ++ ready ∧ b ∈ nodes ∧ ∀ c, R c b → c ∈ out ++ [a]) :
    Sorting R nodes (out ++ [a]) ready' := by
  obtain ⟨hout, -, hdisjoint⟩ := List.nodup_append.mp h.nodup
  have hnew : a ∉ out := fun hmem => hdisjoint a hmem a ha rfl
  refine ⟨List.nodup_append.mpr ⟨?_, hnodup, ?_⟩, fun b => ?_, ?_⟩
  · refine List.nodup_append.mpr ⟨hout, List.nodup_singleton a, ?_⟩
    rintro b hb _ hc rfl
    exact hnew (List.mem_singleton.mp hc ▸ hb)
  · rintro b hb _ hb' rfl
    rcases (hmem b).mp hb' with ⟨hready, hne⟩ | ⟨hfresh, -⟩
    · rcases List.mem_append.mp hb with hb | hb
      · exact hdisjoint b hb b hready rfl
      · exact hne (List.mem_singleton.mp hb)
    · rcases List.mem_append.mp hb with hb | hb
      · exact hfresh (List.mem_append_left _ hb)
      · exact hfresh (List.mem_append_right _ (List.mem_singleton.mp hb ▸ ha))
  · constructor
    · intro hb
      have hold : b ∈ out ++ ready → b ∈ nodes ∧ ∀ c, R c b → c ∈ out ++ [a] := fun hb =>
        ⟨((h.mem_iff b).mp hb).1, fun c hc => List.mem_append_left _ (((h.mem_iff b).mp hb).2 c hc)⟩
      rcases List.mem_append.mp hb with hb | hb
      · rcases List.mem_append.mp hb with hb | hb
        · exact hold (List.mem_append_left _ hb)
        · exact hold (List.mem_append_right _ (List.mem_singleton.mp hb ▸ ha))
      · rcases (hmem b).mp hb with ⟨hb, -⟩ | ⟨-, hb⟩
        · exact hold (List.mem_append_right _ hb)
        · exact hb
    · intro hb
      by_cases hold : b ∈ out ++ ready
      · rcases List.mem_append.mp hold with hold | hold
        · exact List.mem_append_left _ (List.mem_append_left _ hold)
        · by_cases hba : b = a
          · exact List.mem_append_left _ (List.mem_append_right _ (List.mem_singleton.mpr hba))
          · exact List.mem_append_right _ ((hmem b).mpr (Or.inl ⟨hold, hba⟩))
      · exact List.mem_append_right _ ((hmem b).mpr (Or.inr ⟨hold, hb⟩))
  · refine List.pairwise_append.mpr ⟨h.pairwise, List.pairwise_singleton _ _, fun b hb c hc hcb => ?_⟩
    obtain rfl := List.mem_singleton.mp hc
    exact hnew (h.closed hb hcb)

theorem length_le [DecidableEq α] (h : Sorting R nodes out ready) :
    out.length + ready.length ≤ nodes.card := by
  have hsub : (out ++ ready).toFinset ⊆ nodes := fun a ha =>
    ((h.mem_iff a).mp (List.mem_toFinset.mp ha)).1
  have hle := Finset.card_le_card hsub
  rwa [List.toFinset_card_of_nodup h.nodup, List.length_append] at hle

/-- When no node is ready, every node is listed. -/
theorem mem_of_done (h : Sorting R nodes out []) (hacyclic : ∀ a, ¬Relation.TransGen R a a)
    (hnodes : ∀ a b, R a b → a ∈ nodes) (ha : a ∈ nodes) : a ∈ out := by
  -- a first node that is not listed would be ready
  by_contra hout
  let before : nodes → nodes → Prop := fun a b => Relation.TransGen R a b
  have htrans : IsTrans nodes before := ⟨fun _ _ _ hab hbc => hab.trans hbc⟩
  have hirrefl : Std.Irrefl before := ⟨fun a => hacyclic a⟩
  have hwf : WellFounded before := Finite.wellFounded_of_trans_of_irrefl before
  obtain ⟨b, hb, hmin⟩ := hwf.has_min { b | b.1 ∉ out } ⟨⟨a, ha⟩, hout⟩
  refine hb (List.append_nil out ▸ (h.mem_iff b.1).mpr ⟨b.2, fun c hc => ?_⟩)
  by_contra hcout
  exact hmin ⟨c, hnodes c b hc⟩ hcout (.single hc)

/-- All that comes before a node is listed before it. -/
theorem mem_of_split (h : Sorting R nodes out ready) (hacyclic : ∀ a, ¬Relation.TransGen R a a)
    {earlier later : List α} (hsplit : out = earlier ++ a :: later) (hba : R b a) :
    b ∈ earlier := by
  have hmem : b ∈ earlier ++ a :: later := hsplit ▸ h.closed (by simp [hsplit]) (.single hba)
  have hlater := (List.pairwise_append.mp (hsplit ▸ h.pairwise)).2.1
  rcases List.mem_append.mp hmem with hb | hb
  · exact hb
  · rcases List.mem_cons.mp hb with rfl | hb
    · exact (hacyclic b (.single hba)).elim
    · exact ((List.pairwise_cons.mp hlater).1 b hb (.single hba)).elim

end Sorting

/-! ## Other nodes before one node -/

section Replace

open Relation

variable {R' : α → α → Prop} {P : α → Prop}

/-- What comes before `a` is replaced by what satisfies `P`. -/
structure Replaces (R R' : α → α → Prop) (a : α) (P : α → Prop) : Prop where
  other : ∀ {b c}, c ≠ a → (R' b c ↔ R b c)
  at_iff : ∀ {b}, R' b a ↔ P b

namespace Replaces

variable (h : Replaces R R' a P)

include h

/-- Where nothing of `P` comes after `a`, no way from `a` returns to it. -/
theorem reaches_of_reaches' (hP : ∀ p, P p → ¬ReflTransGen R a p) (hab : ReflTransGen R' a b) :
    ReflTransGen R a b := by
  induction hab with
  | refl => exact .refl
  | @tail b c _ hbc ih =>
    by_cases hc : c = a
    · subst hc
      exact (hP b (h.at_iff.mp hbc) ih).elim
    · exact ih.tail ((h.other hc).mp hbc)

/-- A way is one of before, or passes `a`. -/
theorem reaches_or_passes (hbc : TransGen R' b c) :
    TransGen R b c ∨ ∃ p, P p ∧ ReflTransGen R' b p ∧ ReflTransGen R' a c := by
  induction hbc with
  | @single c hbc =>
    by_cases hc : c = a
    · subst hc
      exact Or.inr ⟨b, h.at_iff.mp hbc, .refl, .refl⟩
    · exact Or.inl (.single ((h.other hc).mp hbc))
  | @tail c d hbc hcd ih =>
    by_cases hd : d = a
    · subst hd
      exact Or.inr ⟨c, h.at_iff.mp hcd, hbc.to_reflTransGen, .refl⟩
    · rcases ih with ih | ⟨p, hp, hbp, hac⟩
      · exact Or.inl (ih.tail ((h.other hd).mp hcd))
      · exact Or.inr ⟨p, hp, hbp, hac.tail hcd⟩

/-- Without cycles before, there are none after if and only if nothing of `P` comes after `a`. -/
theorem acyclic_iff (hacyclic : ∀ b, ¬TransGen R b b) :
    (∀ b, ¬TransGen R' b b) ↔ ∀ p, P p → ¬ReflTransGen R a p := by
  constructor
  · intro hacyclic' p hp hap
    have hkept : ReflTransGen R' a p := by
      clear hp
      induction hap with
      | refl => exact .refl
      | @tail b c hab hbc ih =>
        by_cases hc : c = a
        · subst hc
          exact (hacyclic c (TransGen.tail' hab hbc)).elim
        · exact ih.tail ((h.other hc).mpr hbc)
    exact hacyclic' a (TransGen.tail' hkept (h.at_iff.mpr hp))
  · intro hP b hcycle
    rcases h.reaches_or_passes hcycle with hcycle | ⟨p, hp, hbp, hab⟩
    · exact hacyclic b hcycle
    · exact hP p hp (h.reaches_of_reaches' hP (hab.trans hbp))

end Replaces

end Replace

end TopologicalOrder
