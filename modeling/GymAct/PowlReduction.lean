import GymAct.PowlOrder

/-!
# Reductions of partial orders

`transitive_closure` and `transitive_reduction` are exact (`closure_reduction_exact`) : the
reduction of an acyclic relation is the least relation with its closure.

`validate_model` re-derives the reduction of a stored order, and asks of the stored closure that
it is a strict order, but never that it is the closure of the order. So it accepts exactly the
sound orders unless a reduced order is stored with another strict order for its closure
(`validates_order_iff`).
-/

namespace GymAct.Powl

open Fallible (bind_eq_ok)

/-! ## Covers -/

section Cover

variable {α : Type*} {R S : α → α → Prop}

/-- Related with nothing in between. -/
def Cover (R : α → α → Prop) (i j : α) : Prop := R i j ∧ ¬∃ k, R i k ∧ R k j

open Classical in
/-- The elements of a set between two. -/
noncomputable def between (R : α → α → Prop) (support : Finset α) (i j : α) : Finset α :=
  support.filter fun k => R i k ∧ R k j

theorem mem_between {support : Finset α} {i j k : α} :
    k ∈ between R support i j ↔ k ∈ support ∧ R i k ∧ R k j := by
  classical
  exact Finset.mem_filter

/-- A part of what is between two that leaves an element out. -/
theorem card_between_lt {support : Finset α} {i j i' j' k : α} (hk : k ∈ between R support i j)
    (hsub : ∀ x, R i' x → R x j' → R i x ∧ R x j) (hout : ¬(R i' k ∧ R k j')) :
    (between R support i' j').card < (between R support i j).card := by
  refine Finset.card_lt_card ((Finset.ssubset_iff_of_subset fun x hx => ?_).mpr ⟨k, hk, fun hx => ?_⟩)
  · obtain ⟨hx, hix, hxj⟩ := mem_between.mp hx
    exact mem_between.mpr ⟨hx, hsub x hix hxj⟩
  · exact hout (mem_between.mp hx).2

/-- A transitive and irreflexive relation with finitely many targets is the closure of its
covers. -/
theorem transGen_cover (htrans : ∀ i j k, R i j → R j k → R i k) (hirrefl : ∀ i, ¬R i i)
    (support : Finset α) (hsupport : ∀ i j, R i j → j ∈ support) {i j : α} (hij : R i j) :
    Relation.TransGen (Cover R) i j := by
  by_cases hcover : ∃ k, R i k ∧ R k j
  · obtain ⟨k, hik, hkj⟩ := hcover
    have hk : k ∈ between R support i j := mem_between.mpr ⟨hsupport i k hik, hik, hkj⟩
    -- fewer elements are between either end and the one in the middle
    have hleft : (between R support i k).card < (between R support i j).card :=
      card_between_lt hk (fun x hix hxk => ⟨hix, htrans x k j hxk hkj⟩) fun h => hirrefl k h.2
    have hright : (between R support k j).card < (between R support i j).card :=
      card_between_lt hk (fun x hkx hxj => ⟨htrans i k x hik hkx, hxj⟩) fun h => hirrefl k h.1
    exact .trans (transGen_cover htrans hirrefl support hsupport hik)
      (transGen_cover htrans hirrefl support hsupport hkj)
  · exact .single ⟨hij, hcover⟩
termination_by (between R support i j).card

/-- A cover of a closure is a step of every relation with that closure. -/
theorem rel_of_cover (h : ∀ i j, Relation.TransGen S i j ↔ R i j) {i j : α} (hij : Cover R i j) :
    S i j := by
  rcases Relation.TransGen.tail'_iff.mp ((h i j).mpr hij.1) with ⟨k, hik, hkj⟩
  rcases Relation.reflTransGen_iff_eq_or_transGen.mp hik with rfl | hik
  · exact hkj
  · exact absurd ⟨k, (h i k).mp hik, (h k j).mp (.single hkj)⟩ hij.2

end Cover

/-! ## The reduction -/

section Reduction

variable {edges : Finset OrderEdge} {n : ℕ}

/-- The closure of a set of edges. -/
abbrev Reaches (edges : Finset OrderEdge) : ℕ → ℕ → Prop := Relation.TransGen (Precedes edges)

/-- Nothing reaches itself. -/
def Acyclic (edges : Finset OrderEdge) : Prop := ∀ i, ¬Reaches edges i i

theorem exists_transitiveClosure (hbounded : ∀ e ∈ edges, e.src < n ∧ e.dst < n)
    (hacyclic : Acyclic edges) : ∃ closure, transitiveClosure edges n = .ok closure := by
  refine ⟨orderEdgesWhere n (reachability edges n), ?_⟩
  refine transitiveClosure_eq_ok.mpr ⟨hbounded, hacyclic, fun e => ?_⟩
  rw [mem_orderEdgesWhere, reachability_iff hbounded]
  exact ⟨fun h => h.2.2, fun h => ⟨(lt_of_transGen hbounded h).1, (lt_of_transGen hbounded h).2, h⟩⟩

/-- What `transitive_reduction` answers : the covers of the closure. -/
theorem transitiveReduction_eq_ok {reduction : Finset OrderEdge} :
    transitiveReduction edges n = .ok reduction ↔ (∀ e ∈ edges, e.src < n ∧ e.dst < n) ∧
      Acyclic edges ∧ ∀ e, e ∈ reduction ↔ Cover (Reaches edges) e.src e.dst := by
  simp only [transitiveReduction, bind_eq_ok]
  have hmem {closure : Finset OrderEdge} (h : transitiveClosure edges n = .ok closure)
      (e : OrderEdge) : (e ∈ closure.filter fun e => ¬∃ k < n, k ≠ e.src ∧ k ≠ e.dst ∧
        ⟨e.src, k⟩ ∈ closure ∧ ⟨k, e.dst⟩ ∈ closure) ↔ Cover (Reaches edges) e.src e.dst := by
    obtain ⟨hbounded, hacyclic, hclosure⟩ := transitiveClosure_eq_ok.mp h
    rw [Finset.mem_filter, hclosure e]
    refine and_congr_right fun _ => not_congr ⟨?_, ?_⟩
    · rintro ⟨k, -, -, -, hik, hkj⟩
      exact ⟨k, (hclosure _).mp hik, (hclosure _).mp hkj⟩
    · rintro ⟨k, hik, hkj⟩
      refine ⟨k, (lt_of_transGen hbounded hik).2, ?_, ?_, (hclosure _).mpr hik, (hclosure _).mpr hkj⟩
      · rintro rfl
        exact hacyclic _ hik
      · rintro rfl
        exact hacyclic _ hkj
  constructor
  · rintro ⟨closure, hclosure, hreduction⟩
    obtain ⟨hbounded, hacyclic, -⟩ := transitiveClosure_eq_ok.mp hclosure
    refine ⟨hbounded, hacyclic, fun e => ?_⟩
    rw [← Except.ok.inj hreduction]
    exact hmem hclosure e
  · rintro ⟨hbounded, hacyclic, hreduction⟩
    obtain ⟨closure, hclosure⟩ := exists_transitiveClosure hbounded hacyclic
    refine ⟨closure, hclosure, congrArg Except.ok (Finset.ext fun e => ?_)⟩
    rw [hreduction e]
    exact hmem hclosure e

theorem bounded_of_reaches {edges' : Finset OrderEdge} (hbounded : ∀ e ∈ edges, e.src < n ∧ e.dst < n)
    (h : ∀ i j, Reaches edges' i j ↔ Reaches edges i j) : ∀ e ∈ edges', e.src < n ∧ e.dst < n :=
  fun e he => lt_of_transGen hbounded ((h e.src e.dst).mp (.single he))

/-- The reduction has the closure of the edges. -/
theorem reaches_reduction_iff {reduction : Finset OrderEdge}
    (h : transitiveReduction edges n = .ok reduction) (i j : ℕ) :
    Reaches reduction i j ↔ Reaches edges i j := by
  obtain ⟨hbounded, hacyclic, hreduction⟩ := transitiveReduction_eq_ok.mp h
  constructor
  · exact Relation.TransGen.closed (fun a b hab => ((hreduction ⟨a, b⟩).mp hab).1) i j
  · intro hij
    refine Relation.TransGen.mono (fun a b hab => (hreduction ⟨a, b⟩).mpr hab) i j ?_
    exact transGen_cover (fun _ _ _ => .trans) hacyclic (Finset.range n)
      (fun a b hab => Finset.mem_range.mpr (lt_of_transGen hbounded hab).2) hij

/-- Edges with one closure have one reduction. -/
theorem transitiveReduction_congr {edges' reduction : Finset OrderEdge}
    (h : transitiveReduction edges n = .ok reduction)
    (hreaches : ∀ i j, Reaches edges' i j ↔ Reaches edges i j) :
    transitiveReduction edges' n = .ok reduction := by
  obtain ⟨hbounded, hacyclic, hcover⟩ := transitiveReduction_eq_ok.mp h
  have hsame : Reaches edges' = Reaches edges := funext₂ fun i j => propext (hreaches i j)
  refine transitiveReduction_eq_ok.mpr ⟨bounded_of_reaches hbounded hreaches, fun i => ?_, ?_⟩
  · rw [hsame]
    exact hacyclic i
  · rw [hsame]
    exact hcover

theorem exists_transitiveReduction (hbounded : ∀ e ∈ edges, e.src < n ∧ e.dst < n)
    (hacyclic : Acyclic edges) : ∃ reduction, transitiveReduction edges n = .ok reduction := by
  obtain ⟨closure, hclosure⟩ := exists_transitiveClosure hbounded hacyclic
  exact ⟨_, bind_eq_ok.mpr ⟨closure, hclosure, rfl⟩⟩

/-- What `transitive_closure` refuses of edges in range : a cycle. -/
theorem transitiveClosure_eq_cyclic_iff (hbounded : ∀ e ∈ edges, e.src < n ∧ e.dst < n) :
    transitiveClosure edges n = .error .cyclicPartialOrder ↔ ∃ i, Reaches edges i i := by
  have hcheck : checkEdges edges n = .ok () := if_pos hbounded
  have hcycle : (∃ i < n, reachability edges n i i = true) ↔ ∃ i, Reaches edges i i := by
    refine exists_congr fun i => ?_
    rw [reachability_iff hbounded]
    exact ⟨And.right, fun hi => ⟨(lt_of_transGen hbounded hi).1, hi⟩⟩
  rw [← hcycle]
  unfold transitiveClosure
  rw [hcheck]
  dsimp only [Fallible.ok_bind]
  split
  · next h => exact iff_of_true rfl h
  · next h => exact iff_of_false nofun h

/-- The closure and the reduction of edges over `n` children. -/
structure Exact (edges : Finset OrderEdge) (n : ℕ) : Prop where
  closure : Acyclic edges → ∃ closure, transitiveClosure edges n = .ok closure ∧
    ∀ e, e ∈ closure ↔ Reaches edges e.src e.dst
  cyclic : transitiveClosure edges n = .error .cyclicPartialOrder ↔ ∃ i, Reaches edges i i
  reduction : Acyclic edges → ∃ reduction, transitiveReduction edges n = .ok reduction ∧
    (∀ i j, Reaches reduction i j ↔ Reaches edges i j) ∧
    (∀ S : ℕ → ℕ → Prop, (∀ i j, Relation.TransGen S i j ↔ Reaches edges i j) →
      ∀ e ∈ reduction, S e.src e.dst) ∧
    ∀ edges', (∀ i j, Reaches edges' i j ↔ Reaches edges i j) →
      transitiveReduction edges' n = .ok reduction

/-- `transitive_closure` and `transitive_reduction` are exact. -/
theorem closure_reduction_exact (edges : Finset OrderEdge) (n : ℕ)
    (hbounded : ∀ e ∈ edges, e.src < n ∧ e.dst < n) : Exact edges n where
  closure := by
    intro hacyclic
    obtain ⟨closure, hclosure⟩ := exists_transitiveClosure hbounded hacyclic
    exact ⟨closure, hclosure, (transitiveClosure_eq_ok.mp hclosure).2.2⟩
  cyclic := transitiveClosure_eq_cyclic_iff hbounded
  reduction := by
    intro hacyclic
    obtain ⟨reduction, hreduction⟩ := exists_transitiveReduction hbounded hacyclic
    have hcover := (transitiveReduction_eq_ok.mp hreduction).2.2
    refine ⟨reduction, hreduction, reaches_reduction_iff hreduction, fun S hS e he => ?_,
      fun edges' => transitiveReduction_congr hreduction⟩
    exact rel_of_cover hS ((hcover e).mp he)

theorem closure_reduction_exact_chain : (∀ e ∈ ({⟨0, 1⟩, ⟨1, 2⟩, ⟨0, 2⟩} : Finset OrderEdge),
    e.src < 3 ∧ e.dst < 3) ∧ Exact {⟨0, 1⟩, ⟨1, 2⟩, ⟨0, 2⟩} 3 :=
  ⟨by decide, closure_reduction_exact _ 3 (by decide)⟩

end Reduction

/-! ## What the validator asks of an order -/

section Validator

variable {n : ℕ} {children : Fin n → PowlNode} {body : OrderBody}

/-- The stored order joins `n` children, is acyclic and is its own reduction. -/
structure OrderBody.Reduced (n : ℕ) (body : OrderBody) : Prop where
  bounded : ∀ e ∈ body.order, e.src < n ∧ e.dst < n
  acyclic : Acyclic body.order
  covers : ∀ e ∈ body.order, Cover (Reaches body.order) e.src e.dst

/-- The stored closure is a strict order on `n` children. -/
structure OrderBody.Strict (n : ℕ) (body : OrderBody) : Prop where
  bounded : ∀ e ∈ body.closure, e.src < n ∧ e.dst < n
  asymm : ∀ e ∈ body.closure, e.src ≠ e.dst ∧ ⟨e.dst, e.src⟩ ∉ body.closure
  trans : ∀ e ∈ body.closure, ∀ k < n, ⟨e.dst, k⟩ ∈ body.closure → ⟨e.src, k⟩ ∈ body.closure

/-- The stored closure is the closure of the stored order. -/
def OrderBody.Closed (body : OrderBody) : Prop :=
  ∀ e, e ∈ body.closure ↔ Reaches body.order e.src e.dst

theorem transitiveReduction_self_iff :
    transitiveReduction body.order n = .ok body.order ↔ body.Reduced n := by
  rw [transitiveReduction_eq_ok]
  constructor
  · rintro ⟨hbounded, hacyclic, hcover⟩
    exact ⟨hbounded, hacyclic, fun e he => (hcover e).mp he⟩
  · rintro ⟨hbounded, hacyclic, hcovers⟩
    exact ⟨hbounded, hacyclic, fun e => ⟨hcovers e, rel_of_cover fun _ _ => Iff.rfl⟩⟩

theorem validatePartialOrder_iff :
    validatePartialOrder n body = .ok () ↔ 2 ≤ n ∧ body.Reduced n ∧ body.Strict n := by
  simp only [validatePartialOrder, validateClosure, validateFrequency, bind_eq_ok, demand_eq_ok]
  constructor
  · rintro ⟨-, htwo, -, -, -, -, -, -, reduction, hreduction, -, rfl, -, hbounded, -, hasymm, htrans⟩
    exact ⟨htwo, transitiveReduction_self_iff.mp hreduction, hbounded, hasymm, htrans⟩
  · rintro ⟨htwo, hreduced, hstrict⟩
    have hloop : ∀ e ∈ body.order, e.src ≠ e.dst := by
      intro e he heq
      have hself := (hreduced.covers e he).1
      rw [← heq] at hself
      exact hreduced.acyclic e.src hself
    exact ⟨(), htwo, (), body.frequency.min_le, (), hreduced.bounded, (), hloop, body.order,
      transitiveReduction_self_iff.mpr hreduced, (), rfl, (), hstrict.bounded, (), hstrict.asymm,
      hstrict.trans⟩

theorem validateModel_partialOrder_iff :
    validateModel (.partialOrder n children body) = .ok () ↔
      validatePartialOrder n body = .ok () ∧ ∀ i, validateFrom (children i) 2 = .ok () := by
  simp only [validateModel, validateFrom, bind_eq_ok, forM_eq_ok, demand_eq_ok]
  constructor
  · rintro ⟨-, -, ⟨⟩, hbody, hchildren⟩
    exact ⟨hbody, fun i => hchildren i (List.mem_finRange i)⟩
  · rintro ⟨hbody, hchildren⟩
    exact ⟨(), by decide, (), hbody, fun i _ => hchildren i⟩

/-- The closure of an acyclic order is a strict order. -/
theorem OrderBody.Closed.strict (h : body.Closed) (hreduced : body.Reduced n) : body.Strict n where
  bounded := fun e he => lt_of_transGen hreduced.bounded ((h e).mp he)
  asymm := by
    intro e he
    have hreach := (h e).mp he
    refine ⟨fun heq => hreduced.acyclic e.src ?_, fun hback => hreduced.acyclic e.src ?_⟩
    · rw [← heq] at hreach
      exact hreach
    · exact hreach.trans ((h _).mp hback)
  trans := fun e he k _ hk => (h _).mpr (((h e).mp he).trans ((h _).mp hk))

/-- The validator accepts the sound orders only, unless a reduced order is stored with a strict
order that is not its closure. -/
theorem validates_order_iff (htwo : 2 ≤ n) (hchildren : ∀ i, validateFrom (children i) 2 = .ok ()) :
    (validateModel (.partialOrder n children body) = .ok () ↔ body.Reduced n ∧ body.Closed) ↔
      ¬(body.Reduced n ∧ body.Strict n ∧ ¬body.Closed) := by
  have haccepts : validateModel (.partialOrder n children body) = .ok () ↔
      body.Reduced n ∧ body.Strict n := by
    rw [validateModel_partialOrder_iff, validatePartialOrder_iff]
    exact ⟨fun h => h.1.2, fun h => ⟨⟨htwo, h⟩, hchildren⟩⟩
  rw [haccepts]
  constructor
  · rintro h ⟨hreduced, hstrict, hclosed⟩
    exact hclosed (h.mp ⟨hreduced, hstrict⟩).2
  · intro h
    refine ⟨fun ⟨hreduced, hstrict⟩ => ⟨hreduced, ?_⟩, fun ⟨hreduced, hclosed⟩ =>
      ⟨hreduced, hclosed.strict hreduced⟩⟩
    by_contra hclosed
    exact h ⟨hreduced, hstrict, hclosed⟩

/-- An order of two children whose stored closure was emptied. -/
def forgottenClosure : OrderBody := { order := {⟨0, 1⟩}, closure := ∅ }

theorem forgottenClosure_validates :
    validateModel (.partialOrder 2 ![.silent, .silent] forgottenClosure) = .ok () ∧
      ¬(forgottenClosure.Reduced 2 ∧ forgottenClosure.Closed) := by
  obtain ⟨⟨⟩, hvalid⟩ := Fallible.exists_eq_ok_of_isOk
    (x := validateModel (.partialOrder 2 ![.silent, .silent] forgottenClosure)) (by decide +kernel)
  refine ⟨hvalid, fun ⟨_, hclosed⟩ => ?_⟩
  have hedge : (⟨0, 1⟩ : OrderEdge) ∈ forgottenClosure.closure :=
    (hclosed ⟨0, 1⟩).mpr (.single (Finset.mem_singleton_self _))
  exact Finset.notMem_empty _ hedge

theorem validates_order_silent : 2 ≤ 2 ∧
    (∀ i : Fin 2, validateFrom (![.silent, .silent] i) 2 = .ok ()) ∧
      ((validateModel (.partialOrder 2 ![.silent, .silent] forgottenClosure) = .ok () ↔
        forgottenClosure.Reduced 2 ∧ forgottenClosure.Closed) ↔
          ¬(forgottenClosure.Reduced 2 ∧ forgottenClosure.Strict 2 ∧ ¬forgottenClosure.Closed)) := by
  have hchildren : ∀ i : Fin 2, validateFrom (![.silent, .silent] i) 2 = .ok () :=
    Fin.forall_fin_two.mpr ⟨rfl, rfl⟩
  exact ⟨le_rfl, hchildren, validates_order_iff le_rfl hchildren⟩

end Validator

end GymAct.Powl
