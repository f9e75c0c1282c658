import GymAct.PowlValidate

/-!
# Closures of partial orders

`_reachability` is the transitive closure of its edges (`reachability_iff`), so that
`transitive_closure` of a closure is the closure itself (`transitiveClosure_closure`), and a
`PartialOrder` built from the closure of another is the same order (`mkPartialOrder_closure`).
-/

namespace GymAct.Powl

open Fallible (bind_eq_ok ite_throw_eq_ok)

/-- The edges as a relation. -/
def Precedes (edges : Finset OrderEdge) (i j : ℕ) : Prop := ⟨i, j⟩ ∈ edges

/-! ## Reachability -/

/-- The pass of `_reachability` for one node. -/
def passThrough (reach : ℕ → ℕ → Bool) (k i j : ℕ) : Bool := reach i j || (reach i k && reach k j)

theorem passThrough_iff {reach : ℕ → ℕ → Bool} {k i j : ℕ} :
    passThrough reach k i j = true ↔ reach i j = true ∨ reach i k = true ∧ reach k j = true := by
  simp [passThrough]

/-- Passes reach along paths only. -/
theorem foldl_passThrough_sound : ∀ {l : List ℕ} {reach : ℕ → ℕ → Bool} {i j : ℕ},
    l.foldl passThrough reach i j = true → Relation.TransGen (fun a b => reach a b = true) i j
  | [], _, _, _, h => .single h
  | k :: l, reach, i, j, h => by
    refine Relation.TransGen.closed (fun a b hab => ?_) i j
      (@foldl_passThrough_sound l (passThrough reach k) i j h)
    rcases passThrough_iff.mp hab with hab | ⟨hak, hkb⟩
    · exact .single hab
    · exact .tail (.single hak) hkb

theorem foldl_passThrough_mono : ∀ {l : List ℕ} {reach : ℕ → ℕ → Bool} {i j : ℕ},
    reach i j = true → l.foldl passThrough reach i j = true
  | [], _, _, _, h => h
  | k :: l, reach, i, j, h =>
    @foldl_passThrough_mono l (passThrough reach k) i j (passThrough_iff.mpr (Or.inl h))

/-- What is reached through a node is reached, once the pass for it is made, and stays so. -/
theorem foldl_passThrough_trans : ∀ {l : List ℕ} {reach : ℕ → ℕ → Bool} {passed : ℕ → Prop},
    (∀ m, passed m → ∀ i j, reach i m = true → reach m j = true → reach i j = true) →
    ∀ m, passed m ∨ m ∈ l → ∀ i j, l.foldl passThrough reach i m = true →
      l.foldl passThrough reach m j = true → l.foldl passThrough reach i j = true
  | [], _, _, htrans, m, hm, i, j, him, hmj =>
    htrans m (hm.resolve_right List.not_mem_nil) i j him hmj
  | k :: l, reach, passed, htrans, m, hm, i, j, him, hmj => by
    refine @foldl_passThrough_trans l (passThrough reach k) (fun m => passed m ∨ m = k) ?_ m ?_
      i j him hmj
    · intro m hm i j him hmj
      rw [passThrough_iff] at him hmj ⊢
      rcases hm with hm | rfl
      · -- both halves may go through `k`, which `reach` already joins at `m`
        rcases him with him | ⟨hik, hkm⟩
        · rcases hmj with hmj | ⟨hmk, hkj⟩
          · exact Or.inl (htrans m hm i j him hmj)
          · exact Or.inr ⟨htrans m hm i k him hmk, hkj⟩
        · rcases hmj with hmj | ⟨-, hkj⟩
          · exact Or.inr ⟨hik, htrans m hm k j hkm hmj⟩
          · exact Or.inr ⟨hik, hkj⟩
      · have him' : reach i m = true := him.elim id And.left
        have hmj' : reach m j = true := hmj.elim id And.right
        exact Or.inr ⟨him', hmj'⟩
    · rcases hm with hm | hm
      · exact Or.inl (Or.inl hm)
      · exact (List.mem_cons.mp hm).imp Or.inr id

variable {edges : Finset OrderEdge} {n : ℕ}

/-- `_reachability` is the transitive closure. -/
theorem reachability_iff (hbounded : ∀ e ∈ edges, e.src < n ∧ e.dst < n) {i j : ℕ} :
    reachability edges n i j = true ↔ Relation.TransGen (Precedes edges) i j := by
  have hedge : ∀ a b, decide (⟨a, b⟩ ∈ edges) = true ↔ Precedes edges a b := fun a b =>
    decide_eq_true_iff
  constructor
  · intro h
    exact Relation.TransGen.mono (fun a b => (hedge a b).mp) i j
      (@foldl_passThrough_sound (List.range n) _ i j h)
  · intro h
    induction h with
    | single hab => exact @foldl_passThrough_mono (List.range n) _ _ _ ((hedge _ _).mpr hab)
    | @tail b c _ hbc ih =>
      have hb : b < n := (hbounded _ hbc).1
      exact @foldl_passThrough_trans (List.range n) _ (fun _ => False) nofun b
        (Or.inr (List.mem_range.mpr hb)) i c ih (foldl_passThrough_mono ((hedge _ _).mpr hbc))

/-! ## Closures -/

theorem mem_orderEdgesWhere {related : ℕ → ℕ → Bool} {e : OrderEdge} :
    e ∈ orderEdgesWhere n related ↔ e.src < n ∧ e.dst < n ∧ related e.src e.dst = true := by
  simp only [orderEdgesWhere, Finset.mem_image, Finset.mem_filter, Finset.mem_product,
    Finset.mem_range, Prod.exists]
  constructor
  · rintro ⟨i, j, ⟨⟨hi, hj⟩, h⟩, rfl⟩
    exact ⟨hi, hj, h⟩
  · exact fun ⟨hi, hj, h⟩ => ⟨e.src, e.dst, ⟨⟨hi, hj⟩, h⟩, rfl⟩

theorem lt_of_transGen (hbounded : ∀ e ∈ edges, e.src < n ∧ e.dst < n) {i j : ℕ}
    (h : Relation.TransGen (Precedes edges) i j) : i < n ∧ j < n := by
  induction h with
  | single hij => exact hbounded _ hij
  | tail _ hjk ih => exact ⟨ih.1, (hbounded _ hjk).2⟩

/-- What `transitive_closure` answers : the closure of edges in range without a cycle. -/
theorem transitiveClosure_eq_ok {closure : Finset OrderEdge} :
    transitiveClosure edges n = .ok closure ↔ (∀ e ∈ edges, e.src < n ∧ e.dst < n) ∧
      (∀ i, ¬Relation.TransGen (Precedes edges) i i) ∧
        ∀ e, e ∈ closure ↔ Relation.TransGen (Precedes edges) e.src e.dst := by
  have hcheck : (∃ u, checkEdges edges n = .ok u) ↔ ∀ e ∈ edges, e.src < n ∧ e.dst < n := by
    unfold checkEdges
    split <;> simp_all
  simp only [transitiveClosure, bind_eq_ok, ite_throw_eq_ok, exists_and_right, hcheck]
  refine and_congr_right fun hbounded => and_congr ?_ ?_
  · rw [not_exists]
    refine forall_congr' fun i => not_congr ?_
    rw [reachability_iff hbounded]
    exact ⟨And.right, fun hi => ⟨(lt_of_transGen hbounded hi).1, hi⟩⟩
  · have hmem (e : OrderEdge) : e ∈ orderEdgesWhere n (reachability edges n) ↔
        Relation.TransGen (Precedes edges) e.src e.dst := by
      rw [mem_orderEdgesWhere, reachability_iff hbounded]
      exact ⟨fun h => h.2.2, fun h => ⟨(lt_of_transGen hbounded h).1, (lt_of_transGen hbounded h).2, h⟩⟩
    constructor
    · intro h e
      rw [← Except.ok.inj h, hmem]
    · intro h
      refine congrArg Except.ok (Finset.ext fun e => ?_)
      rw [h, hmem]

/-- The closure of a closure is itself. -/
theorem transitiveClosure_closure {closure : Finset OrderEdge}
    (h : transitiveClosure edges n = .ok closure) : transitiveClosure closure n = .ok closure := by
  obtain ⟨hbounded, hacyclic, hmem⟩ := transitiveClosure_eq_ok.mp h
  have hclosed : ∀ i j, Relation.TransGen (Precedes closure) i j ↔
      Relation.TransGen (Precedes edges) i j := by
    intro i j
    constructor
    · exact Relation.TransGen.closed (fun a b hab => (hmem ⟨a, b⟩).mp hab) i j
    · exact Relation.TransGen.mono (fun a b hab => (hmem ⟨a, b⟩).mpr (.single hab)) i j
  refine transitiveClosure_eq_ok.mpr ⟨fun e he => ?_, fun i hi => ?_, fun e => ?_⟩
  · exact lt_of_transGen hbounded ((hmem e).mp he)
  · exact hacyclic i ((hclosed i i).mp hi)
  · rw [hmem, hclosed]

theorem mkPartialOrder_eq_ok_iff {children : Fin n → PowlNode} {frequency : Frequency}
    {body : OrderBody} :
    PowlNode.mkPartialOrder n children edges frequency = .ok (.partialOrder n children body) ↔
      2 ≤ n ∧ transitiveClosure edges n = .ok body.closure ∧
        transitiveReduction body.closure n = .ok body.order ∧ body.frequency = frequency ∧
          (PowlNode.partialOrder n children body).depth ≤ maxPowlDepth := by
  simp only [PowlNode.mkPartialOrder, ite_throw_eq_ok, bind_eq_ok, not_lt]
  refine and_congr_right fun _ => ?_
  constructor
  · rintro ⟨closure, hclosure, reduction, hreduction, hdepth, hnode⟩
    obtain rfl : (⟨reduction, closure, frequency⟩ : OrderBody) = body := by
      simpa using Except.ok.inj hnode
    exact ⟨hclosure, hreduction, rfl, hdepth⟩
  · rintro ⟨hclosure, hreduction, rfl, hdepth⟩
    exact ⟨_, hclosure, _, hreduction, hdepth, rfl⟩

/-- `PartialOrder` answers a partial order of its children. -/
theorem exists_of_mkPartialOrder {children : Fin n → PowlNode} {frequency : Frequency}
    {node : PowlNode} (h : PowlNode.mkPartialOrder n children edges frequency = .ok node) :
    ∃ body : OrderBody, body.frequency = frequency ∧ node = .partialOrder n children body := by
  simp only [PowlNode.mkPartialOrder, ite_throw_eq_ok, bind_eq_ok] at h
  obtain ⟨-, closure, -, reduction, -, -, hnode⟩ := h
  exact ⟨⟨reduction, closure, frequency⟩, rfl, (Except.ok.inj hnode).symm⟩

/-- A partial order built again from its closure, over other children, is the same order. -/
theorem mkPartialOrder_closure {children children' : Fin n → PowlNode} {frequency : Frequency}
    {body : OrderBody}
    (h : PowlNode.mkPartialOrder n children edges frequency = .ok (.partialOrder n children body))
    (hdepth : (PowlNode.partialOrder n children' body).depth ≤ maxPowlDepth) :
    PowlNode.mkPartialOrder n children' body.closure frequency =
      .ok (.partialOrder n children' body) := by
  obtain ⟨hn, hclosure, hreduction, hfrequency, -⟩ := mkPartialOrder_eq_ok_iff.mp h
  exact mkPartialOrder_eq_ok_iff.mpr
    ⟨hn, transitiveClosure_closure hclosure, hreduction, hfrequency, hdepth⟩

end GymAct.Powl
