import GymAct.PowlGuarded
import GymAct.PowlReduction
import GymAct.PowlRenaming
import Mathlib.Data.Fin.Tuple.Sort

/-!
# Canonical forms

`canonical_form` sorts the children of a partial order by their identities and renumbers its
edges. Renumbered edges have the renumbered closure and reduction
(`transitiveReduction_relabel`), so that the canonical form of a validated model is its own
canonical form, and is the model up to renaming where stored closures are closures of their
orders.

`canonicalForm_iff` : sorting reads the identity of every child of a partial order, which raises
when a choice graph below it splits a pair. `canonicalForm_permuted` : children with identities
of their own may be permuted.
-/

namespace GymAct.Powl

open Fallible (bind_eq_ok collect collect_eq_ok_iff ite_throw_eq_ok)

/-! ## Renumbered edges -/

/-- `OrderEdge(new_index[e.src], new_index[e.dst])`, for every edge. -/
def relabel (σ : ℕ → ℕ) (edges : Finset OrderEdge) : Finset OrderEdge :=
  edges.image fun e => ⟨σ e.src, σ e.dst⟩

section Relabel

variable {σ : Equiv.Perm ℕ} {edges : Finset OrderEdge} {n : ℕ}

theorem mem_relabel {i j : ℕ} : ⟨σ i, σ j⟩ ∈ relabel σ edges ↔ (⟨i, j⟩ : OrderEdge) ∈ edges := by
  simp only [relabel, Finset.mem_image, OrderEdge.mk.injEq, σ.apply_eq_iff_eq]
  constructor
  · rintro ⟨e, he, rfl, rfl⟩
    exact he
  · exact fun he => ⟨_, he, rfl, rfl⟩

theorem relabel_congr {σ σ' : ℕ → ℕ} (hbounded : ∀ e ∈ edges, e.src < n ∧ e.dst < n)
    (h : ∀ i < n, σ i = σ' i) : relabel σ edges = relabel σ' edges := by
  refine Finset.image_congr fun e he => ?_
  rw [h _ (hbounded e he).1, h _ (hbounded e he).2]

theorem relabel_relabel (σ σ' : ℕ → ℕ) :
    relabel σ' (relabel σ edges) = relabel (σ' ∘ σ) edges := by
  simp only [relabel, Finset.image_image]
  rfl

theorem relabel_id : relabel id edges = edges := Finset.image_id

/-- Renumbered edges reach what the edges reach. -/
theorem reaches_relabel {i j : ℕ} : Reaches (relabel σ edges) (σ i) (σ j) ↔ Reaches edges i j := by
  constructor
  · intro h
    have hstep : ∀ a b, Precedes (relabel σ edges) a b → Precedes edges (σ.symm a) (σ.symm b) := by
      intro a b hab
      rwa [Precedes, ← mem_relabel (σ := σ), σ.apply_symm_apply, σ.apply_symm_apply]
    have hback : Reaches edges (σ.symm (σ i)) (σ.symm (σ j)) :=
      Relation.TransGen.lift σ.symm hstep _ _ h
    rwa [σ.symm_apply_apply, σ.symm_apply_apply] at hback
  · exact Relation.TransGen.lift σ (fun _ _ => mem_relabel.mpr) i j

theorem acyclic_relabel : Acyclic (relabel σ edges) ↔ Acyclic edges := by
  rw [Acyclic, ← σ.forall_congr_right]
  exact forall_congr' fun i => not_congr reaches_relabel

theorem cover_relabel {i j : ℕ} :
    Cover (Reaches (relabel σ edges)) (σ i) (σ j) ↔ Cover (Reaches edges) i j := by
  rw [Cover, Cover, reaches_relabel, ← σ.exists_congr_right]
  refine and_congr Iff.rfl (not_congr (exists_congr fun k => ?_))
  rw [reaches_relabel, reaches_relabel]

theorem bounded_relabel (hσ : ∀ i, σ i < n ↔ i < n) :
    (∀ e ∈ relabel σ edges, e.src < n ∧ e.dst < n) ↔ ∀ e ∈ edges, e.src < n ∧ e.dst < n := by
  simp only [relabel, Finset.forall_mem_image, hσ]

theorem bounded_reduction {reduction : Finset OrderEdge}
    (h : transitiveReduction edges n = .ok reduction) : ∀ e ∈ reduction, e.src < n ∧ e.dst < n := by
  obtain ⟨hbounded, -, hcovers⟩ := transitiveReduction_eq_ok.mp h
  exact fun e he => lt_of_transGen hbounded ((hcovers e).mp he).1

/-- Edges are renumbered before or after they are reduced. -/
theorem transitiveReduction_relabel (hσ : ∀ i, σ i < n ↔ i < n) :
    transitiveReduction (relabel σ edges) n = (transitiveReduction edges n).map (relabel σ) := by
  by_cases hbounded : ∀ e ∈ edges, e.src < n ∧ e.dst < n
  · have hbounded' := (bounded_relabel hσ).mpr hbounded
    by_cases hacyclic : Acyclic edges
    · obtain ⟨reduction, hreduction⟩ := exists_transitiveReduction hbounded hacyclic
      rw [hreduction]
      have hcovers := (transitiveReduction_eq_ok.mp hreduction).2.2
      refine transitiveReduction_eq_ok.mpr ⟨hbounded', acyclic_relabel.mpr hacyclic, ?_⟩
      rintro ⟨i, j⟩
      obtain ⟨i, rfl⟩ := σ.surjective i
      obtain ⟨j, rfl⟩ := σ.surjective j
      rw [mem_relabel, cover_relabel, hcovers]
    · have hcyclic : ∀ {edges : Finset OrderEdge}, (∀ e ∈ edges, e.src < n ∧ e.dst < n) →
          ¬Acyclic edges → transitiveReduction edges n = .error .cyclicPartialOrder := by
        intro edges hbounded hcycle
        rw [Acyclic, not_forall_not] at hcycle
        rw [transitiveReduction, (transitiveClosure_eq_cyclic_iff hbounded).mpr hcycle]
        rfl
      rw [hcyclic hbounded' (mt acyclic_relabel.mp hacyclic), hcyclic hbounded hacyclic]
      rfl
  · have hdangling : ∀ {edges : Finset OrderEdge}, (¬∀ e ∈ edges, e.src < n ∧ e.dst < n) →
        transitiveReduction edges n = .error .danglingReference := by
      intro edges h
      rw [transitiveReduction, transitiveClosure, checkEdges, if_neg h]
      rfl
    rw [hdangling (mt (bounded_relabel hσ).mp hbounded), hdangling hbounded]
    rfl

end Relabel

/-! ## Sorted children -/

section Sorted

variable {n : ℕ}

/-- A permutation of the children as one of all indices. -/
def renumber (π : Equiv.Perm (Fin n)) : Equiv.Perm ℕ := π.extendDomain Fin.equivSubtype

@[simp]
theorem renumber_apply (π : Equiv.Perm (Fin n)) (i : Fin n) : renumber π i = π i :=
  π.extendDomain_apply_image Fin.equivSubtype i

theorem renumber_lt_iff (π : Equiv.Perm (Fin n)) (i : ℕ) : renumber π i < n ↔ i < n := by
  by_cases hi : i < n
  · exact iff_of_true ((renumber_apply π ⟨i, hi⟩).trans_lt (π ⟨i, hi⟩).isLt) hi
  · rw [renumber, Equiv.Perm.extendDomain_apply_not_subtype π Fin.equivSubtype hi]

/-- The children in the order of their identities, ties in the order they had. -/
theorem insertionSort_eq_ofFn (ids : Fin n → String) :
    ((List.finRange n).insertionSort fun i j => toLex (ids i, i) ≤ toLex (ids j, j)) =
      List.ofFn (Tuple.sort ids) := by
  let le (i j : Fin n) : Prop := toLex (ids i, i) ≤ toLex (ids j, j)
  have : Std.Total le := ⟨fun _ _ => le_total _ _⟩
  have : IsTrans _ le := ⟨fun _ _ _ => le_trans⟩
  have hsort : StrictMono fun i => toLex (ids (Tuple.sort ids i), Tuple.sort ids i) :=
    Tuple.eq_sort_iff'.mp rfl
  refine @List.Perm.eq_of_pairwise _ le _ _ (fun i j _ _ hij hji => ?_)
    (List.pairwise_insertionSort le _) (List.pairwise_ofFn.mpr fun _ _ hij => (hsort hij).le) ?_
  · exact (Prod.mk.inj (toLex.injective (le_antisymm hij hji))).2
  · refine (List.perm_insertionSort le _).trans ?_
    rw [← List.ofFn_id]
    exact (Equiv.Perm.ofFn_comp_perm (Tuple.sort ids) id).symm

/-- `new_index`, of the children sorted. -/
theorem idxOf_ofFn (π : Equiv.Perm (Fin n)) {old : ℕ} (hold : old < n) :
    ((List.ofFn π).map Fin.val).idxOf old = renumber π.symm old := by
  have hnodup : ((List.ofFn π).map Fin.val).Nodup :=
    (List.nodup_ofFn.mpr π.injective).map Fin.val_injective
  have hlt : (π.symm ⟨old, hold⟩).val < ((List.ofFn π).map Fin.val).length := by simp
  have hget : ((List.ofFn π).map Fin.val)[(π.symm ⟨old, hold⟩).val] = old := by simp
  rw [renumber_apply π.symm ⟨old, hold⟩]
  have hidx := List.Nodup.idxOf_getElem hnodup _ hlt
  rwa [hget] at hidx

variable {K : PowlCanon} {children kids : Fin n → PowlNode} {ids : Fin n → String}
  {body : OrderBody}

@[simp]
theorem refuse_ok {α : Type} {a : α} : refuse (.ok a) = .ok a := rfl

theorem refuse_error_bind {α β : Type} {r : PowlRefusal} (f : α → Except Raised β) :
    refuse (.error r) >>= f = .error (.refusal r) := rfl

/-- `canonical_form` of a partial order whose children have canonical forms with identities. -/
theorem canonicalForm_partialOrder (hkids : ∀ i, K.canonicalForm (children i) = .ok (kids i))
    (hids : ∀ i, K.nodeId (kids i) = .ok (ids i)) :
    K.canonicalForm (.partialOrder n children body) = (do
      let reduced ← refuse (transitiveReduction body.order n)
      refuse (PowlNode.mkPartialOrder n (kids ∘ Tuple.sort ids)
        (relabel (renumber (Tuple.sort ids).symm) reduced) body.frequency)) := by
  rw [PowlCanon.canonicalForm, collect_eq_ok_iff.mpr hkids]
  simp only [Fallible.ok_bind]
  rw [collect_eq_ok_iff.mpr hids]
  simp only [Fallible.ok_bind, insertionSort_eq_ofFn]
  cases hreduced : transitiveReduction body.order n with
  | error r => rw [refuse_error_bind, refuse_error_bind]
  | ok reduced =>
    have hchildren : (fun i : Fin n => kids ((List.ofFn (Tuple.sort ids))[i.val]?.getD i)) =
        kids ∘ Tuple.sort ids := by
      funext i
      simp
    have hedges : relabel (((List.ofFn (Tuple.sort ids)).map Fin.val).idxOf ·) reduced =
        relabel (renumber (Tuple.sort ids).symm) reduced :=
      relabel_congr (bounded_reduction hreduced) fun i hi => idxOf_ofFn _ hi
    rw [refuse_ok, Fallible.ok_bind, Fallible.ok_bind, ← hedges, ← hchildren]
    rfl

/-- Children with identities of their own may be permuted : the canonical form is the same. -/
theorem canonicalForm_permuted (hkids : ∀ i, K.canonicalForm (children i) = .ok (kids i))
    (hids : ∀ i, K.nodeId (kids i) = .ok (ids i)) (hdistinct : Function.Injective ids)
    (π : Equiv.Perm (Fin n)) {body' : OrderBody} (horder : body'.order = relabel (renumber π) body.order)
    (hfrequency : body'.frequency = body.frequency) :
    K.canonicalForm (.partialOrder n (children ∘ π.symm) body') =
      K.canonicalForm (.partialOrder n children body) := by
  have hkids' : ∀ i, K.canonicalForm ((children ∘ π.symm) i) = .ok ((kids ∘ π.symm) i) :=
    fun i => hkids _
  have hids' : ∀ i, K.nodeId ((kids ∘ π.symm) i) = .ok ((ids ∘ π.symm) i) := fun i => hids _
  rw [canonicalForm_partialOrder hkids hids, canonicalForm_partialOrder hkids' hids', horder,
    hfrequency, transitiveReduction_relabel (renumber_lt_iff π)]
  -- both sort the same children
  have hsorted := Tuple.comp_perm_comp_sort_eq_comp_sort (f := ids) (σ := π.symm)
  have hsort : Tuple.sort (ids ∘ π.symm) = (Tuple.sort ids).trans π := by
    ext i
    have hi := hdistinct (congrFun hsorted i)
    simp [← hi]
  rw [hsort]
  cases hreduced : transitiveReduction body.order n with
  | error r => rw [Except.map, refuse_error_bind, refuse_error_bind]
  | ok reduced =>
    have hchildren : (kids ∘ π.symm) ∘ ((Tuple.sort ids).trans π) = kids ∘ Tuple.sort ids := by
      funext i
      simp
    have hedges : relabel (renumber ((Tuple.sort ids).trans π).symm) (relabel (renumber π) reduced) =
        relabel (renumber (Tuple.sort ids).symm) reduced := by
      rw [relabel_relabel]
      refine relabel_congr (bounded_reduction hreduced) fun i hi => ?_
      obtain ⟨j, rfl⟩ : ∃ j : Fin n, j.val = i := ⟨⟨i, hi⟩, rfl⟩
      simp
    rw [hchildren]
    exact congrArg (fun edges => refuse (PowlNode.mkPartialOrder n _ edges body.frequency)) hedges

end Sorted

/-! ## Depths -/

section Depth

variable {n : ℕ} {children : Fin n → PowlNode} {d : ℕ}

theorem foldr_depth_le_iff : ∀ {l : List (Fin n)},
    l.foldr (fun i d => Nat.max (children i).depth d) 0 ≤ d ↔ ∀ i ∈ l, (children i).depth ≤ d
  | [] => by simp
  | i :: l => by
    rw [List.foldr_cons, List.forall_mem_cons, ← foldr_depth_le_iff]
    exact Nat.max_le

theorem depth_partialOrder_le_iff {body : OrderBody} :
    (PowlNode.partialOrder n children body).depth ≤ d + 1 ↔ ∀ i, (children i).depth ≤ d := by
  rw [PowlNode.depth, Nat.add_comm, Nat.add_le_add_iff_right, foldr_depth_le_iff]
  simp

theorem depth_choiceGraph_le_iff {body : ChoiceBody} :
    (PowlNode.choiceGraph n children body).depth ≤ d + 1 ↔ ∀ i, (children i).depth ≤ d := by
  rw [PowlNode.depth, Nat.add_comm, Nat.add_le_add_iff_right, foldr_depth_le_iff]
  simp

end Depth

/-! ## Models with a canonical form -/

/-- The children of every partial order have identities. -/
def PowlNode.Sortable : PowlNode → Prop
  | .partialOrder _ children _ => ∀ i, (children i).Unsplit
  | .choiceGraph _ children _ => ∀ i, (children i).Sortable
  | _ => True

/-- Every stored closure is the closure of the stored order. -/
def PowlNode.Closed : PowlNode → Prop
  | .partialOrder _ children body => body.Closed ∧ ∀ i, (children i).Closed
  | .choiceGraph _ children _ => ∀ i, (children i).Closed
  | _ => True

theorem PowlNode.Unsplit.sortable : ∀ {node : PowlNode}, node.Unsplit → node.Sortable
  | .start, h | .finish, h | .silent, h | .atom _, h => h
  | .partialOrder _ _ _, h => h
  | .choiceGraph _ _ _, h => fun i => (h.2 i).sortable

section Canonical

variable {K : PowlCanon} {n : ℕ} {children : Fin n → PowlNode} {node c : PowlNode} {d : ℕ}

theorem reaches_closure_iff {edges closure : Finset OrderEdge}
    (h : transitiveClosure edges n = .ok closure) (i j : ℕ) : Reaches closure i j ↔ Reaches edges i j := by
  obtain ⟨-, -, hmem⟩ := transitiveClosure_eq_ok.mp h
  exact ⟨Relation.TransGen.closed (fun a b hab => (hmem ⟨a, b⟩).mp hab) i j,
    Relation.TransGen.mono (fun a b hab => (hmem ⟨a, b⟩).mpr (.single hab)) i j⟩

/-- `PartialOrder` stores the reduction of its edges. -/
theorem transitiveReduction_closure {edges closure : Finset OrderEdge}
    (h : transitiveClosure edges n = .ok closure) :
    transitiveReduction closure n = transitiveReduction edges n := by
  obtain ⟨hbounded, hacyclic, -⟩ := transitiveClosure_eq_ok.mp h
  obtain ⟨reduction, hreduction⟩ := exists_transitiveReduction hbounded hacyclic
  rw [hreduction]
  exact transitiveReduction_congr hreduction (reaches_closure_iff h)

/-- A partial order of edges with a reduction stores it with its closure. -/
theorem exists_mkPartialOrder {edges order : Finset OrderEdge} (frequency : Frequency) (htwo : 2 ≤ n)
    (hreduction : transitiveReduction edges n = .ok order)
    (hdepth : ∀ i, (children i).depth < maxPowlDepth) : ∃ body : OrderBody,
      PowlNode.mkPartialOrder n children edges frequency = .ok (.partialOrder n children body) ∧
      body.order = order ∧ body.frequency = frequency ∧ body.Closed := by
  obtain ⟨hbounded, hacyclic, -⟩ := transitiveReduction_eq_ok.mp hreduction
  obtain ⟨closure, hclosure⟩ := exists_transitiveClosure hbounded hacyclic
  refine ⟨⟨order, closure, frequency⟩, mkPartialOrder_eq_ok_iff.mpr ⟨htwo, hclosure, ?_, rfl, ?_⟩,
    rfl, rfl, fun e => ?_⟩
  · rw [transitiveReduction_closure hclosure, hreduction]
  · exact depth_partialOrder_le_iff.mpr fun i => Nat.le_of_lt_succ (hdepth i)
  · exact ((transitiveClosure_eq_ok.mp hclosure).2.2 e).trans
      (reaches_reduction_iff hreduction _ _).symm

theorem mkChoiceGraph_of_validate {body : ChoiceBody} (h : validateChoiceGraph n body = .ok ())
    (hdepth : ∀ i, (children i).depth < maxPowlDepth) :
    PowlNode.mkChoiceGraph n children body = .ok (.choiceGraph n children body) := by
  have hbody := wellFormed_of_validateChoiceGraph h
  have hle : (PowlNode.choiceGraph n children body).depth ≤ maxPowlDepth :=
    depth_choiceGraph_le_iff.mpr fun i => Nat.le_of_lt_succ (hdepth i)
  have hedges : ¬∃ e ∈ body.edges, ¬(e.src < n ∧ e.dst < n) := fun ⟨e, he, hout⟩ =>
    hout (hbody.bounded e he)
  have hboundary : ¬∃ e ∈ body.edges, e.dst = body.startIdx ∨ e.src = body.endIdx := by
    rintro ⟨e, he, hdst | hsrc⟩
    · exact (hbody.boundary e he).1 hdst
    · exact (hbody.boundary e he).2 hsrc
  simp only [PowlNode.mkChoiceGraph, ite_throw_eq_ok]
  exact ⟨not_lt.mpr hbody.two_le, hedges, not_not.mpr ⟨hbody.startIdx_lt, hbody.endIdx_lt⟩,
    hbody.start_ne_end, hboundary, not_lt.mpr hle, rfl⟩

theorem renumber_refl : renumber (Equiv.refl (Fin n)) = Equiv.refl ℕ :=
  Equiv.Perm.extendDomain_refl Fin.equivSubtype

variable {kids : Fin n → PowlNode} {ids : Fin n → String} {body : OrderBody}

/-- The canonical form of a partial order that stores its own reduction. -/
theorem canonicalForm_of_reduced (htwo : 2 ≤ n)
    (hreduced : transitiveReduction body.order n = .ok body.order)
    (hkids : ∀ i, K.canonicalForm (children i) = .ok (kids i))
    (hids : ∀ i, K.nodeId (kids i) = .ok (ids i))
    (hdepth : ∀ i, (kids i).depth < maxPowlDepth) : ∃ body' : OrderBody,
      K.canonicalForm (.partialOrder n children body) =
        .ok (.partialOrder n (kids ∘ Tuple.sort ids) body') ∧
      body'.order = relabel (renumber (Tuple.sort ids).symm) body.order ∧
      body'.frequency = body.frequency ∧ body'.Closed ∧
      ((∀ i, K.canonicalForm (kids i) = .ok (kids i)) →
        K.canonicalForm (.partialOrder n (kids ∘ Tuple.sort ids) body') =
          .ok (.partialOrder n (kids ∘ Tuple.sort ids) body')) := by
  have hsorted : transitiveReduction (relabel (renumber (Tuple.sort ids).symm) body.order) n =
      .ok (relabel (renumber (Tuple.sort ids).symm) body.order) := by
    rw [transitiveReduction_relabel (renumber_lt_iff _), hreduced]
    rfl
  have hdepth' : ∀ i, ((kids ∘ Tuple.sort ids) i).depth < maxPowlDepth := fun i => hdepth _
  obtain ⟨body', hmk, horder, hfrequency, hclosed⟩ :=
    exists_mkPartialOrder body.frequency htwo hsorted hdepth'
  refine ⟨body', ?_, horder, hfrequency, hclosed, fun hfixed => ?_⟩
  · rw [canonicalForm_partialOrder hkids hids, hreduced, refuse_ok, Fallible.ok_bind, hmk, refuse_ok]
  · -- sorted children are not sorted again
    have hsort : Tuple.sort (ids ∘ Tuple.sort ids) = Equiv.refl (Fin n) :=
      Tuple.sort_eq_refl_iff_monotone.mpr (Tuple.monotone_sort ids)
    have hfixed' : ∀ i, K.canonicalForm ((kids ∘ Tuple.sort ids) i) =
        .ok ((kids ∘ Tuple.sort ids) i) := fun i => hfixed _
    have hids' : ∀ i, K.nodeId ((kids ∘ Tuple.sort ids) i) = .ok ((ids ∘ Tuple.sort ids) i) :=
      fun i => hids _
    rw [canonicalForm_partialOrder hfixed' hids', horder, hsorted, refuse_ok, Fallible.ok_bind, hsort,
      Equiv.refl_symm, renumber_refl, Equiv.coe_refl, Equiv.coe_refl, relabel_id, Function.comp_id,
      hfrequency, hmk, refuse_ok]

/-- A partial order whose children were sorted is the order renamed. -/
theorem renames_sorted {π : Equiv.Perm (Fin n)} {body' : OrderBody}
    (horder : body'.order = relabel (renumber π.symm) body.order)
    (hfrequency : body'.frequency = body.frequency) (hclosed : body.Closed) (hclosed' : body'.Closed)
    (hrenames : ∀ i, ∃ ρ, Renames (children i) (kids i) ρ) :
    ∃ ρ, Renames (.partialOrder n children body) (.partialOrder n (kids ∘ π) body') ρ := by
  choose ρ hρ using hrenames
  let ρ' (i : ℕ) : Equiv.Perm NodePath := if h : i < n then ρ ⟨i, h⟩ else Equiv.refl _
  refine ⟨branch (renumber π.symm) ρ', .partialOrder (renumber_lt_iff _) hfrequency ?_ fun i => ?_⟩
  · intro i j
    rw [hclosed' ⟨_, _⟩, horder, reaches_relabel, ← hclosed ⟨i, j⟩]
  · have hi : (⟨renumber π.symm i, (renumber_lt_iff _ _).mpr i.isLt⟩ : Fin n) = π.symm i :=
      Fin.ext (renumber_apply π.symm i)
    have hρ' : ρ' i = ρ i := dif_pos i.isLt
    rw [hi, Function.comp_apply, Equiv.apply_symm_apply, hρ']
    exact hρ i

/-- A validated model with a canonical form : its own canonical form, and the model renamed. -/
theorem exists_canonicalForm (hK : K.Lists) : ∀ {node : PowlNode} {d : ℕ}, 1 ≤ d →
    validateFrom node d = .ok () → node.Sortable → ∃ c, K.canonicalForm node = .ok c ∧
      K.canonicalForm c = .ok c ∧ c.depth + d ≤ maxPowlDepth + 1 ∧
      (node.Closed → ∃ ρ, Renames node c ρ)
  | .start, d, _, hvalid, _ | .finish, d, _, hvalid, _ | .silent, d, _, hvalid, _
  | .atom _, d, _, hvalid, _ => by
    have hd : d ≤ maxPowlDepth := demand_eq_ok.mp hvalid
    refine ⟨_, rfl, rfl, ?_, fun _ => ⟨_, .leaf rfl⟩⟩
    simp only [PowlNode.depth]
    omega
  | .partialOrder n children body, d, hpos, hvalid, hsortable => by
    simp only [validateFrom, bind_eq_ok, forM_eq_ok, demand_eq_ok] at hvalid
    obtain ⟨-, hd, ⟨⟩, hbody, hchildren⟩ := hvalid
    obtain ⟨htwo, hreduced, -⟩ := validatePartialOrder_iff.mp hbody
    choose kids hkids hfixed hdepth hrenames using fun i =>
      exists_canonicalForm hK (by omega) (hchildren i (List.mem_finRange i)) (hsortable i).sortable
    have hunsplit : ∀ i, (kids i).Unsplit := fun i => by
      have hspec := canonicalForm_spec hK (hsortable i)
      rwa [hkids i] at hspec
    choose ids hids using fun i => (nodeId_isOk_iff hK).mpr (hunsplit i)
    have hlt : ∀ i, (kids i).depth < maxPowlDepth := fun i => by
      have := hdepth i
      omega
    obtain ⟨body', hform, horder, hfrequency, hclosed, hself⟩ := canonicalForm_of_reduced htwo
      (transitiveReduction_self_iff.mpr hreduced) hkids hids hlt
    refine ⟨_, hform, hself hfixed, ?_, fun h => renames_sorted horder hfrequency h.1 hclosed
      fun i => hrenames i (h.2 i)⟩
    have hle : (PowlNode.partialOrder n (kids ∘ Tuple.sort ids) body').depth ≤
        maxPowlDepth - d + 1 := depth_partialOrder_le_iff.mpr fun i => by
      have := hdepth (Tuple.sort ids i)
      simp only [Function.comp_apply]
      omega
    omega
  | .choiceGraph n children body, d, hpos, hvalid, hsortable => by
    simp only [validateFrom, bind_eq_ok, forM_eq_ok, demand_eq_ok] at hvalid
    obtain ⟨-, hd, ⟨⟩, hbody, hchildren⟩ := hvalid
    choose kids hkids hfixed hdepth hrenames using fun i =>
      exists_canonicalForm hK (by omega) (hchildren i (List.mem_finRange i)) (hsortable i)
    have hlt : ∀ i, (kids i).depth < maxPowlDepth := fun i => by
      have := hdepth i
      omega
    have hform : ∀ {children' : Fin n → PowlNode}, (∀ i, K.canonicalForm (children' i) = .ok (kids i)) →
        K.canonicalForm (.choiceGraph n children' body) = .ok (.choiceGraph n kids body) := by
      intro children' hkids
      rw [PowlCanon.canonicalForm, collect_eq_ok_iff.mpr hkids, Fallible.ok_bind,
        mkChoiceGraph_of_validate hbody hlt, refuse_ok]
    refine ⟨_, hform hkids, hform hfixed, ?_, fun h => ?_⟩
    · have hle : (PowlNode.choiceGraph n kids body).depth ≤ maxPowlDepth - d + 1 :=
        depth_choiceGraph_le_iff.mpr fun i => by
          have := hdepth i
          omega
      omega
    · choose ρ hρ using fun i => hrenames i (h i)
      let ρ' (i : ℕ) : Equiv.Perm NodePath := if h : i < n then ρ ⟨i, h⟩ else Equiv.refl _
      have hρ' : ∀ i : Fin n, ρ' i = ρ i := fun i => dif_pos i.isLt
      exact ⟨branch (Equiv.refl ℕ) ρ', .choiceGraph fun i => hρ' i ▸ hρ i⟩

/-- A canonical form was sorted by identities, so that its model splits no pair below a partial
order. -/
theorem sortable_of_canonicalForm (hK : K.Lists) : ∀ {node c : PowlNode},
    K.canonicalForm node = .ok c → node.Sortable ∧ (c.Unsplit → node.Unsplit)
  | .start, c, _ | .finish, c, _ | .silent, c, _ | .atom _, c, _ => ⟨trivial, fun _ => trivial⟩
  | .partialOrder n children body, c, h => by
    simp only [PowlCanon.canonicalForm, bind_eq_ok, collect_eq_ok_iff] at h
    obtain ⟨kids, hkids, ids, hids, -⟩ := h
    have hunsplit : ∀ i, (children i).Unsplit := fun i =>
      (sortable_of_canonicalForm hK (hkids i)).2 ((nodeId_isOk_iff hK).mp ⟨_, hids i⟩)
    exact ⟨hunsplit, fun _ => hunsplit⟩
  | .choiceGraph n children body, c, h => by
    simp only [PowlCanon.canonicalForm, bind_eq_ok, collect_eq_ok_iff] at h
    obtain ⟨kids, hkids, hnode⟩ := h
    have hchildren i := sortable_of_canonicalForm hK (hkids i)
    refine ⟨fun i => (hchildren i).1, fun hc => ?_⟩
    cases hmk : PowlNode.mkChoiceGraph n kids body with
    | error r =>
      rw [hmk] at hnode
      exact absurd hnode nofun
    | ok node =>
      rw [hmk, refuse_ok, mkChoiceGraph_eq_ok hmk] at hnode
      obtain rfl := Except.ok.inj hnode
      exact ⟨hc.1, fun i => (hchildren i).2 (hc.2 i)⟩

/-- A partial order built over permuted children stores the order renumbered. -/
theorem mkPartialOrder_permuted {edges : Finset OrderEdge} {frequency : Frequency}
    (h : PowlNode.mkPartialOrder n children edges frequency = .ok (.partialOrder n children body))
    (π : Equiv.Perm (Fin n)) : ∃ body' : OrderBody,
      PowlNode.mkPartialOrder n (children ∘ π.symm) (relabel (renumber π) edges) frequency =
        .ok (.partialOrder n (children ∘ π.symm) body') ∧
      body'.order = relabel (renumber π) body.order ∧ body'.frequency = body.frequency := by
  obtain ⟨htwo, hclosure, hreduction, rfl, hdepth⟩ := mkPartialOrder_eq_ok_iff.mp h
  rw [transitiveReduction_closure hclosure] at hreduction
  have hreduction' : transitiveReduction (relabel (renumber π) edges) n =
      .ok (relabel (renumber π) body.order) := by
    rw [transitiveReduction_relabel (renumber_lt_iff π), hreduction]
    rfl
  have hdepth' : ∀ i, ((children ∘ π.symm) i).depth < maxPowlDepth := fun i =>
    Nat.lt_succ_of_le (depth_partialOrder_le_iff.mp hdepth _)
  obtain ⟨body', hmk, horder, hfrequency, -⟩ :=
    exists_mkPartialOrder body.frequency htwo hreduction' hdepth'
  exact ⟨body', hmk, horder, hfrequency⟩

end Canonical

/-! ## The laws of canonical forms -/

/-- The canonical form is its own canonical form and has the language of the model, renamed. -/
def Canonical (K : PowlCanon) (model : PowlNode) : Prop :=
  ∃ c, K.canonicalForm model = .ok c ∧ K.canonicalForm c = .ok c ∧ ∃ ρ, SameLanguage K model c ρ

/-- Permuting the children of a partial order with its edges keeps its digest. -/
def DigestPermutes (K : PowlCanon) {n : ℕ} (children : Fin n → PowlNode) : Prop :=
  ∀ (π : Equiv.Perm (Fin n)) edges frequency node,
    PowlNode.mkPartialOrder n children edges frequency = .ok node → ∃ node',
      PowlNode.mkPartialOrder n (children ∘ π.symm) (relabel (renumber π) edges) frequency =
        .ok node' ∧ K.modelDigest node' = K.modelDigest node

/-- `canonical_form` of a validated model is canonical exactly when no choice graph below a partial
order splits a pair, stored closures being closures of the stored orders; and children of a
partial order whose canonical forms have identities of their own may be permuted. -/
theorem canonical_form_canonical {K : PowlCanon} (hK : K.Lists) :
    (∀ model, validateModel model = .ok () → (Canonical K model → model.Sortable) ∧
      (model.Closed → model.Sortable → Canonical K model)) ∧
    ∀ (n : ℕ) (children kids : Fin n → PowlNode) (ids : Fin n → String),
      (∀ i, K.canonicalForm (children i) = .ok (kids i)) → (∀ i, K.nodeId (kids i) = .ok (ids i)) →
        Function.Injective ids → DigestPermutes K children := by
  refine ⟨fun model hvalid => ⟨fun ⟨_, hform, _⟩ => (sortable_of_canonicalForm hK hform).1, ?_⟩, ?_⟩
  · intro hclosed hsortable
    obtain ⟨c, hform, hself, -, hrenames⟩ := exists_canonicalForm hK le_rfl hvalid hsortable
    obtain ⟨ρ, hρ⟩ := hrenames hclosed
    exact ⟨c, hform, hself, ρ, hρ.sameLanguage K⟩
  · intro n children kids ids hkids hids hdistinct π edges frequency node hnode
    obtain ⟨body, -, rfl⟩ := exists_of_mkPartialOrder hnode
    obtain ⟨body', hmk, horder, hfrequency⟩ := mkPartialOrder_permuted hnode π
    refine ⟨_, hmk, ?_⟩
    rw [PowlCanon.modelDigest, PowlCanon.modelDigest,
      canonicalForm_permuted hkids hids hdistinct π horder hfrequency]

/-! ## Models without a canonical form -/

/-- Two silent steps, in order or not. -/
def silentSteps (body : OrderBody) : PowlNode := .partialOrder 2 (fun _ => .silent) body

/-- The order as `PartialOrder` stores it. -/
def firstThen : OrderBody := { order := {⟨0, 1⟩}, closure := {⟨0, 1⟩} }

/-- A silent step and a start have identities of their own. -/
theorem nodeId_silent_ne_start : Function.Injective
    ![PowlCanon.reference.idOf (PowlCanon.reference.leafStructure .silent),
      PowlCanon.reference.idOf (PowlCanon.reference.leafStructure .start)] := by
  have hne : PowlCanon.reference.idOf (PowlCanon.reference.leafStructure .silent) ≠
      PowlCanon.reference.idOf (PowlCanon.reference.leafStructure .start) := by decide +kernel
  exact Fin.forall_fin_two.mpr ⟨Fin.forall_fin_two.mpr ⟨fun _ => rfl, fun h => absurd h hne⟩,
    Fin.forall_fin_two.mpr ⟨fun h => absurd h hne.symm, fun _ => rfl⟩⟩

theorem canonical_form_canonical_silent : PowlCanon.reference.Lists ∧
    validateModel (silentSteps firstThen) = .ok () ∧ (silentSteps firstThen).Closed ∧
      (silentSteps firstThen).Sortable ∧ Canonical .reference (silentSteps firstThen) ∧
        DigestPermutes .reference ![.silent, .start] := by
  obtain ⟨⟨⟩, hvalid⟩ := Fallible.exists_eq_ok_of_isOk (x := validateModel (silentSteps firstThen))
    (by decide +kernel)
  have hclosure : transitiveClosure firstThen.order 2 = .ok firstThen.closure := by decide +kernel
  have hclosed : (silentSteps firstThen).Closed :=
    ⟨(transitiveClosure_eq_ok.mp hclosure).2.2, fun _ => trivial⟩
  have hsortable : (silentSteps firstThen).Sortable := fun _ => trivial
  obtain ⟨hmodels, hpermutes⟩ := canonical_form_canonical lists_reference
  refine ⟨lists_reference, hvalid, hclosed, hsortable, (hmodels _ hvalid).2 hclosed hsortable, ?_⟩
  exact hpermutes 2 _ ![.silent, .start] _ (Fin.forall_fin_two.mpr ⟨rfl, rfl⟩)
    (Fin.forall_fin_two.mpr ⟨rfl, rfl⟩) nodeId_silent_ne_start

/-- Two silent steps in order : the first fires first. -/
theorem eq_zero_of_hasWord {K : PowlCanon} {body : OrderBody} (hedge : ⟨0, 1⟩ ∈ body.closure)
    {path : NodePath} {word : List NodePath} (h : HasWord K (silentSteps body) (path :: word)) :
    path = [0] := by
  obtain ⟨bound, calls, m, hrun, hcalls, -⟩ := h
  have hsteps := steps_of_fireAll (fireRun_iff.mp hrun)
  rw [hcalls] at hsteps
  obtain ⟨p, hfires, -⟩ := hsteps
  obtain ⟨i, path, q, rfl, -, -, hpred, hstep, -⟩ := fires_partialOrder_iff.mp hfires
  obtain ⟨rfl, -⟩ := (fires_of_isLeaf_iff rfl).mp hstep
  have hi : i ≠ 1 := by
    rintro rfl
    obtain ⟨_, hdone⟩ := hpred _ hedge rfl
    simp [Complete, initialMarking] at hdone
  have hzero : i.val = 0 := by
    have := Fin.val_ne_of_ne hi
    omega
  rw [hzero]

/-- A closure that was forgotten is stored again, and the language is another one. -/
theorem not_canonical_forgotten : ¬Canonical .reference (silentSteps forgottenClosure) := by
  rintro ⟨c, hform, -, ρ, hρ⟩
  obtain ⟨id, hid⟩ : ∃ id, PowlCanon.reference.nodeId .silent = .ok id :=
    (nodeId_isOk_iff lists_reference).mpr trivial
  obtain ⟨body, hbody, horder, -, hclosed, -⟩ := @canonicalForm_of_reduced .reference 2
    (fun _ => .silent) (fun _ => .silent) (fun _ => id) forgottenClosure le_rfl (by decide +kernel)
    (fun _ => rfl) (fun _ => hid) fun _ => by decide
  obtain rfl : silentSteps body = c := Except.ok.inj (hbody.symm.trans hform)
  have hsort : Tuple.sort (fun _ : Fin 2 => id) = Equiv.refl (Fin 2) :=
    Tuple.sort_eq_refl_iff_monotone.mpr monotone_const
  rw [hsort, Equiv.refl_symm, renumber_refl, Equiv.coe_refl, relabel_id] at horder
  have hedge : ⟨0, 1⟩ ∈ body.closure := (hclosed _).mpr (.single (horder ▸ Finset.mem_singleton_self _))
  -- either step may come first in the model, but not in its canonical form
  have hfirst : ∀ i j : ℕ, (fireAll .reference (silentSteps forgottenClosure) defaultBound
      [([i], ""), ([j], "")] initialMarking).toOption.any
        (isFinal (silentSteps forgottenClosure)) = true → ρ [i] = [0] := by
    intro i j hruns
    obtain ⟨m, hm, hfinal⟩ := exists_eq_ok_of_any hruns
    exact eq_zero_of_hasWord hedge ((hρ.words [[i], [j]]).mpr
      ⟨defaultBound, _, m, fireRun_iff.mpr hm, rfl, hfinal⟩)
  have hsame : ρ [0] = ρ [1] :=
    (hfirst 0 1 (by decide +kernel)).trans (hfirst 1 0 (by decide +kernel)).symm
  exact absurd (ρ.injective hsame) (by decide)

/-- A choice between a guarded edge and an `else`, beside a silent step. -/
def splitBelow : PowlNode :=
  .partialOrder 2 ![pairGraph {readyEdge, ⟨0, 1, none⟩}, .silent] { order := ∅, closure := ∅ }

/-- Two validated models without a canonical form. -/
theorem canonical_form_raises_or_differs :
    (validateModel splitBelow = .ok () ∧ ¬Canonical .reference splitBelow) ∧
      validateModel (silentSteps forgottenClosure) = .ok () ∧
        ¬Canonical .reference (silentSteps forgottenClosure) := by
  obtain ⟨⟨⟩, hvalid⟩ := Fallible.exists_eq_ok_of_isOk (x := validateModel splitBelow)
    (by decide +kernel)
  obtain ⟨⟨⟩, hvalid'⟩ := Fallible.exists_eq_ok_of_isOk
    (x := validateModel (silentSteps forgottenClosure)) (by decide +kernel)
  refine ⟨⟨hvalid, fun ⟨_, hform, _⟩ => ?_⟩, hvalid', not_canonical_forgotten⟩
  exact not_unsplit_pairGraph ((sortable_of_canonicalForm lists_reference hform).1 0)

end GymAct.Powl
