import Mathlib.Data.List.Forall2
import Mathlib.Data.List.Induction

/-!
# Hash chains

A list of entries is linked when each entry is admitted at its place after the hash of the
entry before it (`Linked`). When the hash of an entry determines its place, the hash before
it and its content up to `R` (`Determines`), the hash of the last entry determines the
contents of the whole list (`Linked.commits`).
-/

namespace HashChain

variable {E H : Type} (hash : E → H) (admits : ℕ → Option H → E → Prop)

/-- Every entry is admitted at its place, from place `n` after the hash `previous`. -/
def Linked : ℕ → Option H → List E → Prop
  | _, _, [] => True
  | n, previous, e :: es => admits n previous e ∧ Linked (n + 1) (some (hash e)) es

/-- The hash before the entry that comes next. -/
def head (previous : Option H) (es : List E) : Option H :=
  (es.getLast?.map hash).or previous

/-- A hash has one place, one hash before it, and one content up to `R`. -/
def Determines (R : E → E → Prop) : Prop :=
  ∀ n m p q a b, admits n p a → admits m q b → hash a = hash b → n = m ∧ p = q ∧ R a b

variable {hash admits}

@[simp] theorem head_nil (previous : Option H) : head hash previous ([] : List E) = previous := rfl

@[simp] theorem head_snoc (previous : Option H) (es : List E) (e : E) :
    head hash previous (es ++ [e]) = some (hash e) := by
  simp [head]

theorem head_cons (previous : Option H) (e : E) (es : List E) :
    head hash previous (e :: es) = head hash (some (hash e)) es := by
  cases es with
  | nil => rfl
  | cons f fs => simp [head, List.getLast?_cons]

theorem linked_snoc (e : E) :
    ∀ (n : ℕ) (previous : Option H) (es : List E),
      Linked hash admits n previous (es ++ [e]) ↔
        Linked hash admits n previous es ∧ admits (n + es.length) (head hash previous es) e
  | n, previous, [] => by simp [Linked]
  | n, previous, f :: fs => by
    have hplace : n + (f :: fs).length = n + 1 + fs.length := by
      rw [List.length_cons]
      omega
    rw [List.cons_append, Linked, linked_snoc e (n + 1) _ fs, Linked, head_cons, hplace, and_assoc]

/-- Two linked lists that end in one hash have the same contents. -/
theorem Linked.commits {R : E → E → Prop} (hdet : Determines hash admits R) (ys : List E) :
    ∀ {xs : List E}, Linked hash admits 0 none xs → Linked hash admits 0 none ys →
      xs.getLast?.map hash = ys.getLast?.map hash → List.Forall₂ R xs ys := by
  -- from the last entries back, as each fixes the hash before it
  induction ys using List.reverseRecOn with
  | nil =>
    intro xs _ _ hlast
    have : xs = [] := by simpa using hlast
    rw [this]
    exact .nil
  | append_singleton ys b ih =>
    intro xs hx hy hlast
    rcases List.eq_nil_or_concat' xs with rfl | ⟨xs, a, rfl⟩
    · simp at hlast
    · rw [linked_snoc] at hx hy
      have hab : hash a = hash b := by simpa using hlast
      obtain ⟨-, hprevious, hR⟩ := hdet _ _ _ _ a b hx.2 hy.2 hab
      have hbefore : xs.getLast?.map hash = ys.getLast?.map hash := by
        simpa [head] using hprevious
      exact List.rel_append (ih hx.1 hy.1 hbefore) (.cons hR .nil)

/-- What an entry's place says of it holds along the list. -/
theorem Linked.map_eq {place : E → ℕ} (hplace : ∀ n p e, admits n p e → place e = n) :
    ∀ {n : ℕ} {previous : Option H} {es : List E}, Linked hash admits n previous es →
      es.map place = List.range' n es.length
  | _, _, [], _ => rfl
  | n, _, e :: es, h => by
    rw [List.map_cons, List.length_cons, List.range'_succ, hplace n _ e h.1, Linked.map_eq hplace h.2]

/-- An entry of the list is admitted at its place. -/
theorem Linked.of_mem {e : E} : ∀ {n : ℕ} {previous : Option H} {es : List E},
    Linked hash admits n previous es → e ∈ es →
      ∃ m p, m < n + es.length ∧ admits m p e
  | n, previous, f :: fs, h, he => by
    rcases List.mem_cons.mp he with rfl | he
    · exact ⟨n, previous, by simp, h.1⟩
    · obtain ⟨m, p, hm, hadmits⟩ := Linked.of_mem h.2 he
      exact ⟨m, p, by rw [List.length_cons]; omega, hadmits⟩

end HashChain
