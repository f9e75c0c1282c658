import GymAct.Fallible
import GymAct.PowlAlgebra
import Mathlib.Data.Finset.Sort
import Mathlib.Logic.Relation

/-!
# Structural validation

`powl/validate.py` : `validateModel` re-derives every structural law from the stored fields.
The sets it loops over have no order and each of its loops raises one refusal only, so a loop
is a question about the whole set; the texts of the refusals, which name the first offender,
are left out.

`mem_traverse_iff` : `_traverse` finds the nodes that can be reached.
`wellFormed_of_validateModel` : what acceptance gives at every composite of a model.
-/

namespace GymAct.Powl

open Fallible (bind_eq_ok)
open PowlRefusal

/-- `raise` unless a condition holds. -/
def demand (holds : Prop) [Decidable holds] (refusal : PowlRefusal) : Except PowlRefusal Unit :=
  if holds then .ok () else .error refusal

@[simp]
theorem demand_eq_ok {holds : Prop} [Decidable holds] {refusal : PowlRefusal} {u : Unit} :
    demand holds refusal = .ok u ↔ holds := by
  unfold demand
  split <;> simp [*]

/-- A result is checked by running it. -/
theorem exists_eq_ok_of_any {ε α : Type} {x : Except ε α} {c : α → Bool}
    (h : x.toOption.any c = true) : ∃ a, x = .ok a ∧ c a = true := by
  cases x with
  | error e => exact absurd h nofun
  | ok a => exact ⟨a, rfl, h⟩

/-! ## `_traverse` -/

/-- The loop of `_traverse`; a node is stacked once, so a pass for each node is enough. -/
def traverseLoop (adj : ℕ → Finset ℕ) : ℕ → Finset ℕ → List ℕ → Finset ℕ
  | 0, seen, _ => seen
  | _ + 1, seen, [] => seen
  | fuel + 1, seen, cur :: stack =>
    traverseLoop adj fuel (seen ∪ adj cur) ((adj cur \ seen).sort (· ≤ ·) ++ stack)

/-- `_traverse`, over `n` nodes. -/
def traverse (n origin : ℕ) (adj : ℕ → Finset ℕ) : Finset ℕ :=
  traverseLoop adj n {origin} [origin]

section Traverse

variable {adj : ℕ → Finset ℕ} {n origin : ℕ} {seen : Finset ℕ} {stack : List ℕ}

/-- What holds of the nodes seen and the nodes stacked. -/
structure Traversing (adj : ℕ → Finset ℕ) (origin : ℕ) (seen : Finset ℕ) (stack : List ℕ) :
    Prop where
  origin_mem : origin ∈ seen
  reached : ∀ i ∈ seen, Relation.ReflTransGen (fun a b => b ∈ adj a) origin i
  nodup : stack.Nodup
  stacked : ∀ i ∈ stack, i ∈ seen
  closed : ∀ i ∈ seen, i ∉ stack → adj i ⊆ seen

theorem Traversing.init : Traversing adj origin {origin} [origin] where
  origin_mem := by simp
  reached := by simp [Relation.ReflTransGen.refl]
  nodup := by simp
  stacked := by simp
  closed := by simp

theorem Traversing.pop {cur : ℕ} (h : Traversing adj origin seen (cur :: stack)) :
    Traversing adj origin (seen ∪ adj cur) ((adj cur \ seen).sort (· ≤ ·) ++ stack) where
  origin_mem := Finset.mem_union_left _ h.origin_mem
  reached := by
    intro i hi
    rcases Finset.mem_union.mp hi with hi | hi
    · exact h.reached i hi
    · exact (h.reached cur (h.stacked cur List.mem_cons_self)).tail hi
  nodup := by
    refine List.nodup_append'.mpr ⟨Finset.sort_nodup _ _, (List.nodup_cons.mp h.nodup).2, ?_⟩
    intro i hi hstack
    have hfresh : i ∉ seen := (Finset.mem_sdiff.mp ((Finset.mem_sort _).mp hi)).2
    exact hfresh (h.stacked i (List.mem_cons_of_mem _ hstack))
  stacked := by
    intro i hi
    rcases List.mem_append.mp hi with hi | hi
    · exact Finset.mem_union_right _ (Finset.mem_sdiff.mp ((Finset.mem_sort _).mp hi)).1
    · exact Finset.mem_union_left _ (h.stacked i (List.mem_cons_of_mem _ hi))
  closed := by
    intro i hi hout
    have hnew : i ∉ adj cur \ seen := fun hnew =>
      hout (List.mem_append_left _ ((Finset.mem_sort _).mpr hnew))
    have hseen : i ∈ seen := by
      rcases Finset.mem_union.mp hi with hi | hi
      · exact hi
      · by_contra hfresh
        exact hnew (Finset.mem_sdiff.mpr ⟨hi, hfresh⟩)
    by_cases hcur : i = cur
    · subst hcur
      exact Finset.subset_union_right
    · refine (h.closed i hseen fun hmem => ?_).trans Finset.subset_union_left
      exact hout (List.mem_append_right _ ((List.mem_cons.mp hmem).resolve_left hcur))

/-- The nodes that can still be stacked, and those stacked. -/
def pending (n : ℕ) (seen : Finset ℕ) (stack : List ℕ) : ℕ :=
  (Finset.range n \ seen).card + stack.length

theorem pending_pop {cur : ℕ} (hadj : adj cur ⊆ Finset.range n) :
    pending n (seen ∪ adj cur) ((adj cur \ seen).sort (· ≤ ·) ++ stack) + 1 =
      pending n seen (cur :: stack) := by
  have hsplit : Finset.range n \ seen =
      (Finset.range n \ (seen ∪ adj cur)) ∪ (adj cur \ seen) := by
    ext i
    have := @hadj i
    simp only [Finset.mem_sdiff, Finset.mem_union, Finset.mem_range] at this ⊢
    tauto
  have hdisjoint : Disjoint (Finset.range n \ (seen ∪ adj cur)) (adj cur \ seen) := by
    refine Finset.disjoint_left.mpr fun i hi hnew => ?_
    exact (Finset.mem_sdiff.mp hi).2 (Finset.mem_union_right _ (Finset.mem_sdiff.mp hnew).1)
  have hcard := congrArg Finset.card hsplit
  rw [Finset.card_union_of_disjoint hdisjoint] at hcard
  simp only [pending, List.length_append, Finset.length_sort, List.length_cons]
  omega

theorem traverseLoop_spec (hadj : ∀ i, adj i ⊆ Finset.range n) :
    ∀ (fuel : ℕ) (seen : Finset ℕ) (stack : List ℕ), Traversing adj origin seen stack →
      pending n seen stack ≤ fuel → Traversing adj origin (traverseLoop adj fuel seen stack) []
  | 0, seen, stack, h, hfuel => by
    have hnil : stack = [] := by
      unfold pending at hfuel
      exact List.eq_nil_of_length_eq_zero (by omega)
    exact hnil ▸ h
  | fuel + 1, seen, [], h, _ => h
  | fuel + 1, seen, cur :: stack, h, hfuel => by
    have hpop := @pending_pop _ _ seen stack _ (hadj cur)
    exact traverseLoop_spec hadj fuel _ _ h.pop (by omega)

/-- `_traverse` finds the nodes that can be reached. -/
theorem mem_traverse_iff (hadj : ∀ i, adj i ⊆ Finset.range n) (horigin : origin < n) {i : ℕ} :
    i ∈ traverse n origin adj ↔ Relation.ReflTransGen (fun a b => b ∈ adj a) origin i := by
  have hfuel : pending n {origin} [origin] ≤ n := by
    have hmem : origin ∈ Finset.range n := Finset.mem_range.mpr horigin
    have := Finset.card_sdiff_add_card_eq_card (Finset.singleton_subset_iff.mpr hmem)
    simp only [Finset.card_singleton, Finset.card_range] at this
    simp only [pending, List.length_singleton]
    omega
  have h : Traversing adj origin _ [] := traverseLoop_spec hadj n _ _ .init hfuel
  refine ⟨h.reached i, fun hreach => ?_⟩
  induction hreach with
  | refl => exact h.origin_mem
  | tail _ hstep ih => exact h.closed _ ih (by simp) hstep

end Traverse

/-! ## `validate_model` -/

/-- `_validate_frequency`. -/
def validateFrequency (frequency : Frequency) : Except PowlRefusal Unit :=
  demand (∀ m ∈ frequency.max, frequency.min ≤ m) invalidFrequency

/-- `_validate_closure`. -/
def validateClosure (closure : Finset OrderEdge) (n : ℕ) : Except PowlRefusal Unit := do
  demand (∀ e ∈ closure, e.src < n ∧ e.dst < n) danglingReference
  demand (∀ e ∈ closure, e.src ≠ e.dst ∧ ⟨e.dst, e.src⟩ ∉ closure) cyclicPartialOrder
  demand (∀ e ∈ closure, ∀ k < n, ⟨e.dst, k⟩ ∈ closure → ⟨e.src, k⟩ ∈ closure)
    notTransitivelyReduced

/-- `_validate_partial_order`, over `n` children. -/
def validatePartialOrder (n : ℕ) (body : OrderBody) : Except PowlRefusal Unit := do
  demand (2 ≤ n) invalidPartialOrderArity
  validateFrequency body.frequency
  demand (∀ e ∈ body.order, e.src < n ∧ e.dst < n) danglingReference
  demand (∀ e ∈ body.order, e.src ≠ e.dst) cyclicPartialOrder
  let reduction ← transitiveReduction body.order n
  demand (reduction = body.order) notTransitivelyReduced
  validateClosure body.closure n

/-- The edges out of a node. -/
def outgoing (edges : Finset ChoiceGraphEdge) (src : ℕ) : Finset ChoiceGraphEdge :=
  edges.filter fun e => e.src = src

/-- A guard among several edges leaves one unguarded edge at most, and no guard twice. -/
def GuardsExclusive (edges : Finset ChoiceGraphEdge) : Prop :=
  2 ≤ edges.card → (∃ e ∈ edges, e.guard ≠ none) →
    (edges.filter fun e => e.guard = none).card ≤ 1 ∧
      ∀ e ∈ edges, ∀ e' ∈ edges, e.guard ≠ none → e.guard.map Guard.key = e'.guard.map Guard.key →
        e = e'

instance (edges : Finset ChoiceGraphEdge) : Decidable (GuardsExclusive edges) :=
  inferInstanceAs (Decidable (_ → _ → _ ∧ _))

/-- `_validate_guard_exclusivity`. -/
def validateGuardExclusivity (edges : Finset ChoiceGraphEdge) (n : ℕ) : Except PowlRefusal Unit :=
  demand (∀ src < n, GuardsExclusive (outgoing edges src)) ambiguousChoiceGuard

/-- `succ`, the successors of each node. -/
def ChoiceBody.succ (body : ChoiceBody) (i : ℕ) : Finset ℕ :=
  (body.edges.filter fun e => e.src = i).image ChoiceGraphEdge.dst

/-- `pred`. -/
def ChoiceBody.pred (body : ChoiceBody) (i : ℕ) : Finset ℕ :=
  (body.edges.filter fun e => e.dst = i).image ChoiceGraphEdge.src

/-- `_validate_choice_graph`, over `n` children. -/
def validateChoiceGraph (n : ℕ) (body : ChoiceBody) : Except PowlRefusal Unit := do
  demand (2 ≤ n) invalidChoiceArity
  validateFrequency body.frequency
  demand (∀ e ∈ body.edges, e.src < n ∧ e.dst < n) danglingReference
  demand (body.startIdx < n ∧ body.endIdx < n) danglingReference
  demand (body.startIdx ≠ body.endIdx) multiBoundaryChoiceGraph
  demand (∀ e ∈ body.edges, e.dst ≠ body.startIdx ∧ e.src ≠ body.endIdx) multiBoundaryChoiceGraph
  validateGuardExclusivity body.edges n
  demand (∀ i < n, i ∈ traverse n body.startIdx body.succ ∧ i ∈ traverse n body.endIdx body.pred)
    choiceGraphDisconnected

/-- `_validate`. -/
def validateFrom : PowlNode → ℕ → Except PowlRefusal Unit
  | .partialOrder n children body, depth => do
    demand (depth ≤ maxPowlDepth) depthExceeded
    validatePartialOrder n body
    (List.finRange n).forM fun i => validateFrom (children i) (depth + 1)
  | .choiceGraph n children body, depth => do
    demand (depth ≤ maxPowlDepth) depthExceeded
    validateChoiceGraph n body
    (List.finRange n).forM fun i => validateFrom (children i) (depth + 1)
  | _, depth => demand (depth ≤ maxPowlDepth) depthExceeded

/-- `validate_model`. -/
def validateModel (node : PowlNode) : Except PowlRefusal Unit := validateFrom node 1

/-! ## What acceptance gives -/

/-- A partial order over `n` children whose closure is a strict order on them. -/
structure OrderBody.WellFormed (n : ℕ) (body : OrderBody) : Prop where
  two_le : 2 ≤ n
  bounded : ∀ e ∈ body.closure, e.src < n ∧ e.dst < n
  irrefl : ∀ i, ⟨i, i⟩ ∉ body.closure
  trans : ∀ {i j k}, ⟨i, j⟩ ∈ body.closure → ⟨j, k⟩ ∈ body.closure → ⟨i, k⟩ ∈ body.closure
  reduced : transitiveReduction body.order n = .ok body.order

/-- A choice graph over `n` children whose children all lie between start and end. -/
structure ChoiceBody.WellFormed (n : ℕ) (body : ChoiceBody) : Prop where
  two_le : 2 ≤ n
  bounded : ∀ e ∈ body.edges, e.src < n ∧ e.dst < n
  startIdx_lt : body.startIdx < n
  endIdx_lt : body.endIdx < n
  start_ne_end : body.startIdx ≠ body.endIdx
  boundary : ∀ e ∈ body.edges, e.dst ≠ body.startIdx ∧ e.src ≠ body.endIdx
  exclusive : validateGuardExclusivity body.edges n = .ok ()
  forward : ∀ i < n, Relation.ReflTransGen (fun a b => b ∈ body.succ a) body.startIdx i
  backward : ∀ i < n, Relation.ReflTransGen (fun a b => b ∈ body.pred a) body.endIdx i

/-- Every composite of a node is well formed. -/
def PowlNode.WellFormed : PowlNode → Prop
  | .partialOrder n children body => body.WellFormed n ∧ ∀ i, (children i).WellFormed
  | .choiceGraph n children body => body.WellFormed n ∧ ∀ i, (children i).WellFormed
  | _ => True

theorem ChoiceBody.mem_succ {body : ChoiceBody} {i j : ℕ} :
    j ∈ body.succ i ↔ ∃ e ∈ body.edges, e.src = i ∧ e.dst = j := by
  simp [succ, and_assoc]

theorem ChoiceBody.mem_pred {body : ChoiceBody} {i j : ℕ} :
    j ∈ body.pred i ↔ ∃ e ∈ body.edges, e.dst = i ∧ e.src = j := by
  simp [pred, and_assoc]

theorem wellFormed_of_validatePartialOrder {n : ℕ} {body : OrderBody}
    (h : validatePartialOrder n body = .ok ()) : body.WellFormed n := by
  simp only [validatePartialOrder, validateClosure, bind_eq_ok, demand_eq_ok] at h
  obtain ⟨-, htwo, -, -, -, -, -, -, reduction, hred, -, rfl, -, hbounded, -, hirrefl, htrans⟩ := h
  refine ⟨htwo, hbounded, fun i hi => (hirrefl _ hi).1 rfl, fun {i j k} hij hjk => ?_, hred⟩
  exact htrans _ hij k (hbounded _ hjk).2 hjk

theorem wellFormed_of_validateChoiceGraph {n : ℕ} {body : ChoiceBody}
    (h : validateChoiceGraph n body = .ok ()) : body.WellFormed n := by
  simp only [validateChoiceGraph, bind_eq_ok, demand_eq_ok] at h
  obtain ⟨-, htwo, -, -, -, hbounded, -, hboundary, -, hne, -, hedges, ⟨⟩, hguards, hreach⟩ := h
  have hsucc : ∀ i, body.succ i ⊆ Finset.range n := fun i j hj => by
    obtain ⟨e, he, -, rfl⟩ := ChoiceBody.mem_succ.mp hj
    exact Finset.mem_range.mpr (hbounded e he).2
  have hpred : ∀ i, body.pred i ⊆ Finset.range n := fun i j hj => by
    obtain ⟨e, he, -, rfl⟩ := ChoiceBody.mem_pred.mp hj
    exact Finset.mem_range.mpr (hbounded e he).1
  exact {
    two_le := htwo
    bounded := hbounded
    startIdx_lt := hboundary.1
    endIdx_lt := hboundary.2
    start_ne_end := hne
    boundary := hedges
    exclusive := hguards
    forward := fun i hi => (mem_traverse_iff hsucc hboundary.1).mp (hreach i hi).1
    backward := fun i hi => (mem_traverse_iff hpred hboundary.2).mp (hreach i hi).2 }

theorem forM_eq_ok {α : Type} {f : α → Except PowlRefusal Unit} :
    ∀ {l : List α}, l.forM f = .ok () ↔ ∀ a ∈ l, f a = .ok ()
  | [] => by simp [pure, Except.pure]
  | a :: l => by
    change (f a >>= fun _ => l.forM f) = .ok () ↔ _
    rw [bind_eq_ok, List.forall_mem_cons, forM_eq_ok]
    exact ⟨fun ⟨_, ha, hl⟩ => ⟨ha, hl⟩, fun ⟨ha, hl⟩ => ⟨(), ha, hl⟩⟩

theorem wellFormed_of_validateFrom :
    ∀ {node : PowlNode} {depth : ℕ}, validateFrom node depth = .ok () → node.WellFormed
  | .start, _, _ | .finish, _, _ | .silent, _, _ | .atom _, _, _ => trivial
  | .partialOrder n children body, depth, h => by
    simp only [validateFrom, bind_eq_ok, forM_eq_ok] at h
    obtain ⟨-, -, ⟨⟩, hbody, hchildren⟩ := h
    exact ⟨wellFormed_of_validatePartialOrder hbody, fun i =>
      wellFormed_of_validateFrom (hchildren i (List.mem_finRange i))⟩
  | .choiceGraph n children body, depth, h => by
    simp only [validateFrom, bind_eq_ok, forM_eq_ok] at h
    obtain ⟨-, -, ⟨⟩, hbody, hchildren⟩ := h
    exact ⟨wellFormed_of_validateChoiceGraph hbody, fun i =>
      wellFormed_of_validateFrom (hchildren i (List.mem_finRange i))⟩

theorem wellFormed_of_validateModel {node : PowlNode} (h : validateModel node = .ok ()) :
    node.WellFormed :=
  wellFormed_of_validateFrom h

end GymAct.Powl
