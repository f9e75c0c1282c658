import Mathlib.Data.List.Nodup
import Mathlib.Data.Set.Basic

/-!
# Logs with parents

A log of entries, each with an identifier and the identifiers of its parents. The log is
causal if every parent names an earlier entry (`Causal`). `forward` collects the parents
that do not, in one pass over the log (`forward_eq_nil_iff`).
-/

namespace CausalLog

variable {α : Type*}

/-- The identifiers of a log. -/
def ids (log : List (α × List α)) : List α := log.map Prod.fst

@[simp] theorem ids_nil : ids ([] : List (α × List α)) = [] := rfl

@[simp] theorem ids_append (log more : List (α × List α)) : ids (log ++ more) = ids log ++ ids more :=
  List.map_append

@[simp] theorem ids_cons (e : α × List α) (log : List (α × List α)) :
    ids (e :: log) = e.1 :: ids log := rfl

/-- Every parent of an entry names an earlier entry, and none is named twice. -/
def Causal (log : List (α × List α)) : Prop :=
  ∀ pre e post, log = pre ++ e :: post → (∀ p ∈ e.2, p ∈ ids pre) ∧ e.2.Nodup

theorem Causal.nil : Causal ([] : List (α × List α)) := fun pre e post h => by simp at h

theorem Causal.snoc {log : List (α × List α)} (h : Causal log) {e : α × List α}
    (hparents : ∀ p ∈ e.2, p ∈ ids log) (hnodup : e.2.Nodup) : Causal (log ++ [e]) := by
  intro pre e' post heq
  rcases List.eq_nil_or_concat post with rfl | ⟨post, x, rfl⟩
  · obtain ⟨rfl, he⟩ := List.append_inj' heq rfl
    obtain rfl := List.singleton_inj.mp he
    exact ⟨hparents, hnodup⟩
  · refine h pre e' post (List.append_inj' (heq.trans ?_) (rfl : [_].length = [x].length)).1
    simp

/-- The parents of an entry are in the log. -/
theorem Causal.parents {log : List (α × List α)} (h : Causal log) {e : α × List α} (he : e ∈ log) :
    (∀ p ∈ e.2, p ∈ ids log) ∧ e.2.Nodup := by
  obtain ⟨pre, post, rfl⟩ := List.append_of_mem he
  obtain ⟨hparents, hnodup⟩ := h pre e post rfl
  exact ⟨fun p hp => by simp [hparents p hp], hnodup⟩

/-- With distinct identifiers no entry is its own parent. -/
theorem Causal.irrefl {log : List (α × List α)} (h : Causal log) (hids : (ids log).Nodup)
    {e : α × List α} (he : e ∈ log) : e.1 ∉ e.2 := by
  obtain ⟨pre, post, rfl⟩ := List.append_of_mem he
  intro hself
  rw [ids_append, ids_cons, List.nodup_append] at hids
  exact hids.2.2 e.1 ((h pre e post rfl).1 e.1 hself) e.1 (List.mem_cons_self ..) rfl

/-- Every parent of an entry is in `seen` or names an earlier entry. -/
def CausalAfter (seen : List α) (log : List (α × List α)) : Prop :=
  ∀ pre e post, log = pre ++ e :: post → ∀ p ∈ e.2, p ∈ seen ++ ids pre

theorem CausalAfter.nil {seen : List α} : CausalAfter seen ([] : List (α × List α)) :=
  fun pre e post h => by simp at h

theorem causalAfter_cons {seen : List α} {e : α × List α} {log : List (α × List α)} :
    CausalAfter seen (e :: log) ↔ (∀ p ∈ e.2, p ∈ seen) ∧ CausalAfter (seen ++ [e.1]) log := by
  constructor
  · refine fun h => ⟨fun p hp => by simpa using h [] e log rfl p hp, fun pre e' post heq p hp => ?_⟩
    simpa using h (e :: pre) e' post (by rw [heq]; rfl) p hp
  · rintro ⟨hhead, htail⟩ pre e' post heq p hp
    rcases pre with _ | ⟨x, pre⟩
    · obtain ⟨rfl, -⟩ := List.cons_eq_cons.mp heq
      simpa using hhead p hp
    · obtain ⟨rfl, hrest⟩ := List.cons_eq_cons.mp heq
      simpa using htail pre e' post hrest p hp

/-- A log that continues another one. -/
theorem CausalAfter.append {seen : List α} : ∀ {log more : List (α × List α)},
    CausalAfter seen log → CausalAfter (seen ++ ids log) more → CausalAfter seen (log ++ more)
  | [], _, _, hmore => by simpa using hmore
  | e :: log, more, hlog, hmore => by
    obtain ⟨hhead, htail⟩ := causalAfter_cons.mp hlog
    exact causalAfter_cons.mpr ⟨hhead, htail.append (by simpa using hmore)⟩

/-- The parents that name nothing seen or earlier, in order. -/
def forward [DecidableEq α] : List α → List (α × List α) → List α
  | _, [] => []
  | seen, e :: rest => e.2.filter (fun p => p ∉ seen) ++ forward (seen ++ [e.1]) rest

theorem forward_eq_nil_iff [DecidableEq α] :
    ∀ (log : List (α × List α)) (seen : List α), forward seen log = [] ↔ CausalAfter seen log
  | [], _ => by simp [forward, CausalAfter.nil]
  | e :: rest, seen => by
    rw [forward, List.append_eq_nil_iff, forward_eq_nil_iff rest, causalAfter_cons,
      List.filter_eq_nil_iff]
    simp

theorem Causal.after {log : List (α × List α)} (h : Causal log) : CausalAfter [] log :=
  fun pre e post heq p hp => by simpa using (h pre e post heq).1 p hp

theorem Causal.forward_eq_nil [DecidableEq α] {log : List (α × List α)} (h : Causal log) :
    forward [] log = [] :=
  (forward_eq_nil_iff log []).mpr h.after

end CausalLog
