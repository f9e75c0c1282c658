import Mathlib.Data.List.AList

/-!
# Dictionaries by name

A `dict` with strings for keys, where the order of its items is not used.
-/

namespace GymAct

/-- A `dict` by name. The order of its items is not used. -/
abbrev Table (α : Type) := AList fun _ : String => α

theorem Table.lookup_insert {α : Type} (t : Table α) (k k' : String) (a : α) :
    (AList.insert k a t).lookup k' = if k' = k then some a else t.lookup k' := by
  split_ifs with h
  · subst h
    exact AList.lookup_insert t
  · exact AList.lookup_insert_ne h

end GymAct
