import Mathlib.Data.List.Basic
import Mathlib.Logic.Function.Basic

/-!
# Prefix codes

A code whose words can be read off the front of a text (`IsPrefixCode`). Such codes are put
together by constant texts, pairs, and lists that end with a symbol that no word starts with
(`IsPrefixCode.many`).
-/

namespace PrefixCode

variable {σ α β : Type}

/-- A text that starts with a word of the code starts with no other. -/
def IsPrefixCode (code : α → List σ) : Prop :=
  ∀ (a b : α) (rest rest' : List σ), code a ++ rest = code b ++ rest' → a = b ∧ rest = rest'

namespace IsPrefixCode

variable {code : α → List σ}

theorem injective (h : IsPrefixCode code) : Function.Injective code := fun a b hab =>
  (h a b [] [] (congrArg (· ++ []) hab)).1

theorem comp (h : IsPrefixCode code) {f : β → α} (hf : Function.Injective f) :
    IsPrefixCode fun b => code (f b) := fun a b rest rest' heq =>
  (h (f a) (f b) rest rest' heq).imp (fun hab => hf hab) id

/-- Words after a constant text. -/
theorem after (h : IsPrefixCode code) (front : List σ) : IsPrefixCode fun a => front ++ code a := by
  intro a b rest rest' heq
  rw [List.append_assoc, List.append_assoc] at heq
  exact h a b rest rest' (List.append_cancel_left heq)

/-- Words before a constant text. -/
theorem before (h : IsPrefixCode code) (back : List σ) : IsPrefixCode fun a => code a ++ back := by
  intro a b rest rest' heq
  rw [List.append_assoc, List.append_assoc] at heq
  exact (h a b _ _ heq).imp id List.append_cancel_left

theorem pair {code' : β → List σ} (h : IsPrefixCode code) (h' : IsPrefixCode code') :
    IsPrefixCode fun p : α × β => code p.1 ++ code' p.2 := by
  rintro ⟨a, b⟩ ⟨a', b'⟩ rest rest' heq
  rw [List.append_assoc, List.append_assoc] at heq
  obtain ⟨rfl, hrest⟩ := h a a' _ _ heq
  obtain ⟨rfl, hend⟩ := h' b b' _ _ hrest
  exact ⟨rfl, hend⟩

/-- Words in a row, up to a symbol that none of them starts with. -/
theorem many (h : IsPrefixCode code) {stop : σ}
    (hstop : ∀ a rest, (code a ++ rest).head? ≠ some stop) :
    IsPrefixCode fun l : List α => l.flatMap code ++ [stop] := by
  intro l
  induction l with
  | nil =>
    rintro (_ | ⟨b, m⟩) rest rest' heq
    · exact ⟨rfl, (List.cons.inj heq).2⟩
    · refine absurd ?_ (hstop b (m.flatMap code ++ [stop] ++ rest'))
      rw [← List.append_assoc, ← List.append_assoc, ← List.flatMap_cons, ← heq]
      rfl
  | cons a l ih =>
    rintro (_ | ⟨b, m⟩) rest rest' heq
    · refine absurd ?_ (hstop a (l.flatMap code ++ [stop] ++ rest))
      rw [← List.append_assoc, ← List.append_assoc, ← List.flatMap_cons, heq]
      rfl
    · simp only [List.flatMap_cons, List.append_assoc] at heq
      obtain ⟨rfl, hrest⟩ := h a b _ _ heq
      simp only [← List.append_assoc] at hrest
      obtain ⟨rfl, hend⟩ := ih m _ _ hrest
      exact ⟨rfl, hend⟩

end IsPrefixCode

end PrefixCode
