import Mathlib.Data.List.Infix
import Mathlib.Logic.Function.Basic

/-!
# Labelled tries

A trie labels every path, a path being the list of the branches taken from the root.
`child` is the trie under one branch, `graft` puts a trie under a branch, `relabel` changes
the label of the root, `sub` is the trie under a path and `modify` changes the trie under a
path. Changes made further and further down one path, or further and further up, are one
change at each branch of it (`foldl_modify_cons`, `foldr_modify_cons`).
-/

/-- A label for every path. -/
abbrev Trie (ι α : Type*) := List ι → α

namespace Trie

variable {ι α β : Type*}

/-- The trie under a branch. -/
def child (t : Trie ι α) (i : ι) : Trie ι α := fun q => t (i :: q)

/-- The trie under a path. -/
def sub (t : Trie ι α) (r : List ι) : Trie ι α := fun q => t (r ++ q)

/-- Another label at the root. -/
def relabel (t : Trie ι α) (a : α) : Trie ι α
  | [] => a
  | j :: q => t (j :: q)

/-- Another trie under a branch. -/
def graft [DecidableEq ι] (t : Trie ι α) (i : ι) (c : Trie ι α) : Trie ι α
  | [] => t []
  | j :: q => if j = i then c q else t (j :: q)

/-- A change under a path. -/
def modify [DecidableEq ι] (f : Trie ι α → Trie ι α) : List ι → Trie ι α → Trie ι α
  | [], t => f t
  | i :: r, t => t.graft i (modify f r (t.child i))

variable (t c : Trie ι α) (i j : ι) (a : α) (r s : List ι)

@[simp]
theorem child_apply (q : List ι) : t.child i q = t (i :: q) := rfl

@[simp]
theorem sub_apply (q : List ι) : t.sub r q = t (r ++ q) := rfl

@[simp]
theorem sub_nil : t.sub [] = t := rfl

@[simp]
theorem sub_cons : t.sub (i :: r) = (t.child i).sub r := rfl

@[simp]
theorem child_sub : (t.sub r).child i = t.sub (r ++ [i]) := by
  funext q
  simp

@[simp]
theorem relabel_nil : t.relabel a [] = a := rfl

@[simp]
theorem child_relabel : (t.relabel a).child i = t.child i := rfl

/-- A trie is its root label and its children. -/
theorem ext_children {t t' : Trie ι α} (hroot : t [] = t' []) (h : ∀ i, t.child i = t'.child i) :
    t = t' := by
  funext q
  cases q with
  | nil => exact hroot
  | cons i q => exact congrFun (h i) q

variable [DecidableEq ι]

@[simp]
theorem graft_nil : t.graft i c [] = t [] := rfl

@[simp]
theorem child_graft_self : (t.graft i c).child i = c := by
  funext q
  simp [child, graft]

theorem child_graft_of_ne {i j : ι} (h : j ≠ i) : (t.graft i c).child j = t.child j := by
  funext q
  simp [child, graft, h]

theorem child_graft : (t.graft i c).child j = if j = i then c else t.child j := by
  split
  · next h => rw [h, child_graft_self]
  · next h => exact child_graft_of_ne t c h

@[simp]
theorem graft_graft (c' : Trie ι α) : (t.graft i c).graft i c' = t.graft i c' := by
  funext q
  cases q <;> simp [graft]
  split <;> rfl

@[simp]
theorem graft_child : t.graft i (t.child i) = t := by
  funext q
  cases q <;> simp [graft, child]
  rintro rfl
  rfl

theorem graft_relabel : (t.relabel a).graft i c = (t.graft i c).relabel a := by
  funext q
  cases q <;> rfl

@[simp]
theorem modify_nil (f : Trie ι α → Trie ι α) : modify f [] t = f t := rfl

@[simp]
theorem modify_cons (f : Trie ι α → Trie ι α) :
    modify f (i :: r) t = t.graft i (modify f r (t.child i)) := rfl

@[simp]
theorem modify_id : ∀ (r : List ι) (t : Trie ι α), modify id r t = t
  | [], t => rfl
  | i :: r, t => by rw [modify_cons, modify_id r, graft_child]

/-- Only what is done to the trie under the path matters. -/
theorem modify_congr {f g : Trie ι α → Trie ι α} :
    ∀ {r : List ι} {t : Trie ι α}, f (t.sub r) = g (t.sub r) → modify f r t = modify g r t
  | [], _, h => h
  | i :: r, t, h => by
    have h : f ((t.child i).sub r) = g ((t.child i).sub r) := h
    rw [modify_cons, modify_cons, modify_congr h]

/-- A change under a path, label by label. -/
theorem modify_apply (f : Trie ι α → Trie ι α) :
    ∀ (r : List ι) (t : Trie ι α) (q : List ι),
      modify f r t q = if r <+: q then f (t.sub r) (q.drop r.length) else t q
  | [], t, q => by simp
  | i :: r, t, [] => by simp
  | i :: r, t, j :: q => by
    have h := modify_apply f r (t.child i) q
    by_cases hji : j = i
    · subst hji
      simp [graft, h]
    · have hij : i ≠ j := fun h => hji h.symm
      simp [graft, hji, hij]

@[simp]
theorem sub_modify (f : Trie ι α → Trie ι α) :
    ∀ (r : List ι) (t : Trie ι α), (modify f r t).sub r = f (t.sub r)
  | [], t => rfl
  | i :: r, t => by
    rw [modify_cons, sub_cons, child_graft_self, sub_modify f r, sub_cons]

/-- Changes under one branch, one after another, are one change under it. -/
theorem foldl_modify_cons (f : β → Trie ι α → Trie ι α) (path : β → List ι) :
    ∀ (l : List β) (t : Trie ι α),
      l.foldl (fun t b => modify (f b) (i :: path b) t) t =
        t.graft i (l.foldl (fun t b => modify (f b) (path b) t) (t.child i))
  | [], t => by simp
  | b :: l, t => by
    rw [List.foldl_cons, foldl_modify_cons f path l]
    simp

theorem foldr_modify_cons (f : β → Trie ι α → Trie ι α) (path : β → List ι) (t : Trie ι α) :
    ∀ l : List β,
      l.foldr (fun b t => modify (f b) (i :: path b) t) t =
        t.graft i (l.foldr (fun b t => modify (f b) (path b) t) (t.child i))
  | [] => by simp
  | b :: l => by
    rw [List.foldr_cons, foldr_modify_cons f path t l]
    simp

end Trie
