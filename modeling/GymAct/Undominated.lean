import Mathlib.Data.List.Perm.Basic
import Mathlib.Order.WellFoundedSet

/-!
# Undominated elements

The elements of a list that no element of it dominates, for a strict order `r` where `r b a` says
that `b` dominates `a`. A finite list has no infinite chain of dominators, so whatever is dropped
is dominated by something that is kept (`exists_kept_of_dominated`), and dropping what is dominated
once more drops nothing (`undominated_undominated`).
-/

namespace Undominated

variable {α : Type*} (r : α → α → Prop) [DecidableRel r]

def undominated (l : List α) : List α := l.filter fun a => ¬∃ b ∈ l, r b a

variable {r} {l l' : List α} {a : α}

theorem mem_undominated : a ∈ undominated r l ↔ a ∈ l ∧ ∀ b ∈ l, ¬r b a := by
  simp [undominated]

theorem undominated_sublist (l : List α) : (undominated r l).Sublist l := List.filter_sublist

/-- An element is kept as often as it is listed, or dropped each time. -/
theorem count_undominated [DecidableEq α] (l : List α) (a : α) :
    (undominated r l).count a = if ∃ b ∈ l, r b a then 0 else l.count a := by
  split
  · rename_i h
    obtain ⟨b, hb, hr⟩ := h
    exact List.count_eq_zero.mpr fun hmem => (mem_undominated.mp hmem).2 b hb hr
  · rename_i h
    exact List.count_filter (by simpa using h)

theorem undominated_undominated (l : List α) :
    undominated r (undominated r l) = undominated r l := by
  refine List.filter_eq_self.mpr fun a ha => ?_
  simpa using fun b hb => (mem_undominated.mp ha).2 b (mem_undominated.mp hb).1

theorem undominated_perm (h : l.Perm l') : (undominated r l).Perm (undominated r l') := by
  have hsame : ∀ a, (¬∃ b ∈ l, r b a) ↔ ¬∃ b ∈ l', r b a := fun a => by
    simp only [h.mem_iff]
  unfold undominated
  simp only [hsame]
  exact h.filter _

variable [IsStrictOrder α r]

/-- What is dominated is dominated by something that is kept. -/
theorem exists_kept_of_dominated (ha : a ∈ l) (h : ∃ b ∈ l, r b a) :
    ∃ b ∈ undominated r l, r b a := by
  have hwf : {x | x ∈ l}.WellFoundedOn r := (List.finite_toSet l).wellFoundedOn
  suffices hall : ∀ x ∈ {x | x ∈ l}, x ∈ undominated r l ∨ ∃ b ∈ undominated r l, r b x by
    obtain ⟨b, hb, hr⟩ := h
    exact (hall a ha).resolve_left fun hmem => (mem_undominated.mp hmem).2 b hb hr
  intro x hx
  refine hwf.induction (P := fun x => x ∈ undominated r l ∨ ∃ b ∈ undominated r l, r b x) hx
    fun x hx ih => ?_
  by_cases hdom : ∃ b ∈ l, r b x
  · obtain ⟨b, hb, hr⟩ := hdom
    rcases ih b hb hr with hkept | ⟨c, hc, hcb⟩
    · exact Or.inr ⟨b, hkept, hr⟩
    · exact Or.inr ⟨c, hc, trans_of r hcb hr⟩
  · exact Or.inl (mem_undominated.mpr ⟨hx, fun b hb hr => hdom ⟨b, hb, hr⟩⟩)

theorem undominated_ne_nil (h : l ≠ []) : undominated r l ≠ [] := by
  obtain ⟨a, ha⟩ := List.exists_mem_of_ne_nil l h
  by_cases hdom : ∃ b ∈ l, r b a
  · obtain ⟨b, hb, -⟩ := exists_kept_of_dominated ha hdom
    exact List.ne_nil_of_mem hb
  · exact List.ne_nil_of_mem (mem_undominated.mpr ⟨ha, fun b hb hr => hdom ⟨b, hb, hr⟩⟩)

end Undominated
