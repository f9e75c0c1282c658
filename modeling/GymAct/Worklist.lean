import Mathlib.Data.List.Nodup
import Mathlib.Data.List.Perm.Basic

/-!
# Exploring a forest with a stack

`children` gives the nodes under a node, `roots` the nodes an exploration starts from. It
takes a node from its stack, emits the children of the node and stacks them, until the
stack is empty. `Explored` relates the nodes taken, the nodes waiting and the nodes emitted
so far. Once nothing waits, the emitted nodes are those below the roots
(`Explored.mem_iff`), each once (`Explored.nodup`).
-/

namespace Worklist

variable {α : Type*}

/-- A child of a root, or of a node below a root. -/
inductive Below (children : α → List α) (roots : List α) : α → Prop
  | root {x y : α} (hx : x ∈ roots) (hy : y ∈ children x) : Below children roots y
  | child {x y : α} (hx : Below children roots x) (hy : y ∈ children x) : Below children roots y

/-- Every node is a child of one node at most, and once; a root is nobody's child. -/
structure Forest (children : α → List α) (roots : List α) : Prop where
  roots_nodup : roots.Nodup
  children_nodup : ∀ x, (children x).Nodup
  parent_unique : ∀ {x x' y}, y ∈ children x → y ∈ children x' → x = x'
  root_not_child : ∀ {x y}, y ∈ children x → y ∉ roots

/-- The nodes taken, the nodes waiting and the nodes emitted. -/
structure Explored (children : α → List α) (roots taken stack emitted : List α) : Prop where
  emitted_eq : emitted = taken.flatMap children
  perm : (taken ++ stack).Perm (roots ++ emitted)
  below : ∀ y ∈ emitted, Below children roots y
  nodup : (roots ++ emitted).Nodup

variable {children : α → List α} {roots taken stack stack' emitted : List α} {x y : α}

theorem Explored.init (hF : Forest children roots) : Explored children roots [] roots [] where
  emitted_eq := rfl
  perm := by simp
  below := by simp
  nodup := by simpa using hF.roots_nodup

/-- A waiting node is a root or below one. -/
theorem Explored.of_mem_stack (h : Explored children roots taken stack emitted) (hx : x ∈ stack) :
    x ∈ roots ∨ Below children roots x := by
  have hmem : x ∈ roots ++ emitted := h.perm.mem_iff.mp (List.mem_append_right _ hx)
  exact (List.mem_append.mp hmem).imp_right (h.below x)

theorem below_of_mem (hx : x ∈ roots ∨ Below children roots x) (hy : y ∈ children x) :
    Below children roots y :=
  hx.elim (fun h => .root h hy) fun h => .child h hy

/-- One node is taken from the stack. -/
theorem Explored.take (hF : Forest children roots)
    (h : Explored children roots taken (x :: stack) emitted)
    (hstack : stack'.Perm (children x ++ stack)) :
    Explored children roots (taken ++ [x]) stack' (emitted ++ children x) := by
  have hx : x ∈ roots ∨ Below children roots x := h.of_mem_stack List.mem_cons_self
  have hfresh : x ∉ taken := fun hx => by
    have hnodup := h.perm.nodup_iff.mpr h.nodup
    exact List.disjoint_of_nodup_append hnodup hx List.mem_cons_self
  refine ⟨?_, ?_, fun y hy => ?_, ?_⟩
  · rw [h.emitted_eq, List.flatMap_append]
    simp
  · calc (taken ++ [x] ++ stack').Perm (taken ++ [x] ++ (children x ++ stack)) :=
          hstack.append_left _
      List.Perm _ (taken ++ [x] ++ (stack ++ children x)) := List.perm_append_comm.append_left _
      _ = taken ++ x :: stack ++ children x := by simp
      List.Perm _ (roots ++ emitted ++ children x) := h.perm.append_right _
      _ = roots ++ (emitted ++ children x) := by simp
  · rcases List.mem_append.mp hy with hy | hy
    · exact h.below y hy
    · exact below_of_mem hx hy
  · rw [← List.append_assoc]
    refine List.nodup_append'.mpr ⟨h.nodup, hF.children_nodup x, fun y hold hy => ?_⟩
    rcases List.mem_append.mp hold with hold | hold
    · exact hF.root_not_child hy hold
    · -- an emitted child of `x` has a parent that was taken, and that parent is `x`
      rw [h.emitted_eq] at hold
      obtain ⟨x', hx', hy'⟩ := List.mem_flatMap.mp hold
      exact hfresh (hF.parent_unique hy hy' ▸ hx')

/-- Once nothing waits, the emitted nodes are those below the roots. -/
theorem Explored.mem_iff (h : Explored children roots taken [] emitted) :
    y ∈ emitted ↔ Below children roots y := by
  have htaken : ∀ {x}, x ∈ roots ++ emitted → x ∈ taken := fun hx => by
    simpa using h.perm.mem_iff.mpr hx
  refine ⟨h.below y, fun hy => ?_⟩
  rw [h.emitted_eq]
  induction hy with
  | root hx hy => exact List.mem_flatMap.mpr ⟨_, htaken (List.mem_append_left _ hx), hy⟩
  | child hx hy ih =>
    refine List.mem_flatMap.mpr ⟨_, htaken (List.mem_append_right _ ?_), hy⟩
    rw [h.emitted_eq]
    exact ih

end Worklist
