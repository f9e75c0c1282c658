import Mathlib.Data.Finset.Basic

/-!
# Graph patterns and `ASK … FILTER NOT EXISTS`

The part of SPARQL an `ASK` query with an absent group needs, over any terms and variables. A
pattern is matched triple by triple, each match binding the variables that are not bound yet
(`Solvable`); the absent group starts from the binding of the outer one. `solvable_iff` : this finds
the bindings under which every pattern is a triple of the graph.
-/

namespace Sparql

variable {V T : Type*}

/-- A solution mapping. -/
abbrev Binding (V T : Type*) := V → Option T

/-- A position of a triple pattern. -/
inductive Slot (V T : Type*)
  | var (v : V)
  | term (t : T)

/-- `ν` keeps the terms of `μ`, and is `μ` but for the variables `vs`. -/
structure Extends (μ : Binding V T) (vs : List V) (ν : Binding V T) : Prop where
  keeps : ∀ v t, μ v = some t → ν v = some t
  only : ∀ v, v ∉ vs → ν v = μ v

theorem extends_nil {μ ν : Binding V T} : Extends μ [] ν ↔ ν = μ := by
  constructor
  · intro h
    ext1 v
    exact h.only v List.not_mem_nil
  · rintro rfl
    exact ⟨fun _ _ h => h, fun _ _ => rfl⟩

theorem Extends.trans {μ ν ξ : Binding V T} {vs ws : List V} (h : Extends μ vs ν)
    (h' : Extends ν ws ξ) : Extends μ (vs ++ ws) ξ where
  keeps v t hv := h'.keeps v t (h.keeps v t hv)
  only v hv := by
    rw [List.mem_append, not_or] at hv
    rw [h'.only v hv.2, h.only v hv.1]

section Restrict

variable [DecidableEq V]

/-- What `ν` binds of `vs`, else `μ`. -/
def restrict (μ : Binding V T) (vs : List V) (ν : Binding V T) : Binding V T := fun v =>
  if v ∈ vs then ν v else μ v

theorem Extends.restrict {μ ν : Binding V T} {vs ws : List V} (h : Extends μ (vs ++ ws) ν) :
    Extends μ vs (restrict μ vs ν) where
  keeps v t hv := by
    unfold Sparql.restrict
    split
    · exact h.keeps v t hv
    · exact hv
  only v hv := if_neg hv

theorem Extends.of_restrict {μ ν : Binding V T} {vs ws : List V} (h : Extends μ (vs ++ ws) ν) :
    Extends (Sparql.restrict μ vs ν) ws ν where
  keeps v t hv := by
    unfold Sparql.restrict at hv
    split at hv
    · exact hv
    · exact h.keeps v t hv
  only v hv := by
    unfold Sparql.restrict
    split
    · rfl
    · next hvs => exact h.only v (by simp [hvs, hv])

end Restrict

/-! ## Positions -/

namespace Slot

def vars : Slot V T → List V
  | var v => [v]
  | term _ => []

/-- The term at the position, if it is bound. -/
def value (μ : Binding V T) : Slot V T → Option T
  | var v => μ v
  | term t => some t

theorem value_of_extends {μ ν : Binding V T} {vs : List V} (h : Extends μ vs ν) {s : Slot V T}
    {t : T} (hs : s.value μ = some t) : s.value ν = some t := by
  match s with
  | var v => exact h.keeps v t hs
  | term u => exact hs

variable [DecidableEq V]

theorem value_restrict {μ ν : Binding V T} {vs : List V} {s : Slot V T} (hs : s.vars ⊆ vs) :
    s.value (restrict μ vs ν) = s.value ν := by
  match s with
  | var v => exact if_pos (hs (List.mem_singleton_self v))
  | term u => rfl

variable [DecidableEq T]

/-- Bind the position to `t`. -/
def bind (μ : Binding V T) (t : T) : Slot V T → Option (Binding V T)
  | var v =>
    match μ v with
    | none => some (Function.update μ v (some t))
    | some u => if u = t then some μ else none
  | term u => if u = t then some μ else none

theorem bind_eq_some {μ ν : Binding V T} {t : T} {s : Slot V T} :
    s.bind μ t = some ν ↔ Extends μ s.vars ν ∧ s.value ν = some t := by
  match s with
  | term u =>
    rw [vars, extends_nil, value, Option.some_inj, bind]
    split
    · next h => simp [h, eq_comm]
    · next h => simp [h]
  | var v =>
    rw [vars, value, bind]
    cases hv : μ v with
    | none =>
      dsimp only
      rw [Option.some_inj]
      constructor
      · rintro rfl
        refine ⟨⟨fun w u hw => ?_, fun w hw => ?_⟩, Function.update_self ..⟩
        · have hne : w ≠ v := by
            rintro rfl
            simp [hv] at hw
          rw [Function.update_of_ne hne, hw]
        · exact Function.update_of_ne (by simpa using hw) ..
      · rintro ⟨h, ht⟩
        ext1 w
        by_cases hw : w = v
        · subst hw
          rw [Function.update_self, ht]
        · rw [Function.update_of_ne hw, h.only w (by simpa using hw)]
    | some u =>
      dsimp only
      constructor
      · intro h
        split at h
        · next hu =>
          cases h
          exact ⟨⟨fun _ _ hw => hw, fun _ _ => rfl⟩, hu ▸ hv⟩
        · cases h
      · rintro ⟨h, ht⟩
        have hu : u = t := Option.some_inj.mp ((h.keeps v u hv).symm.trans ht)
        rw [if_pos hu, Option.some_inj]
        ext1 w
        by_cases hw : w = v
        · subst hw
          rw [hv, ht, hu]
        · exact (h.only w (by simpa using hw)).symm

end Slot

/-! ## Patterns -/

structure TriplePattern (V T : Type*) where
  subject : Slot V T
  predicate : Slot V T
  object : Slot V T

namespace TriplePattern

def vars (p : TriplePattern V T) : List V := p.subject.vars ++ (p.predicate.vars ++ p.object.vars)

/-- The pattern is the triple `t`. -/
def Is (p : TriplePattern V T) (μ : Binding V T) (t : T × T × T) : Prop :=
  p.subject.value μ = some t.1 ∧ p.predicate.value μ = some t.2.1 ∧ p.object.value μ = some t.2.2

theorem Is.of_extends {p : TriplePattern V T} {μ ν : Binding V T} {vs : List V} {t : T × T × T}
    (hp : p.Is μ t) (h : Extends μ vs ν) : p.Is ν t :=
  ⟨Slot.value_of_extends h hp.1, Slot.value_of_extends h hp.2.1, Slot.value_of_extends h hp.2.2⟩

variable [DecidableEq V]

theorem is_restrict {p : TriplePattern V T} {μ ν : Binding V T} {t : T × T × T} :
    p.Is (restrict μ p.vars ν) t ↔ p.Is ν t := by
  simp only [Is, vars]
  rw [Slot.value_restrict (by simp), Slot.value_restrict (by simp), Slot.value_restrict (by simp)]

variable [DecidableEq T]

/-- Match the pattern with the triple `t`. -/
def extend (μ : Binding V T) (p : TriplePattern V T) (t : T × T × T) : Option (Binding V T) := do
  let μ ← p.subject.bind μ t.1
  let μ ← p.predicate.bind μ t.2.1
  p.object.bind μ t.2.2

theorem extend_eq_some {μ ν : Binding V T} {p : TriplePattern V T} {t : T × T × T} :
    p.extend μ t = some ν ↔ Extends μ p.vars ν ∧ p.Is ν t := by
  simp only [extend, Option.bind_eq_bind, Option.bind_eq_some_iff, Slot.bind_eq_some]
  constructor
  · rintro ⟨μ₁, ⟨h₁, hs⟩, μ₂, ⟨h₂, hp⟩, h₃, ho⟩
    exact ⟨h₁.trans (h₂.trans h₃), Slot.value_of_extends (h₂.trans h₃) hs,
      Slot.value_of_extends h₃ hp, ho⟩
  · rintro ⟨h, hs, hp, ho⟩
    have hrest := h.of_restrict
    refine ⟨restrict μ p.subject.vars ν, ⟨h.restrict, ?_⟩, restrict _ p.predicate.vars ν,
      ⟨hrest.restrict, ?_⟩, hrest.of_restrict, ho⟩
    · rw [Slot.value_restrict (List.Subset.refl _), hs]
    · rw [Slot.value_restrict (List.Subset.refl _), hp]

end TriplePattern

/-! ## Groups -/

variable [DecidableEq V] [DecidableEq T]

/-- Some solution of the patterns `ps` from the binding `μ` satisfies `P`. -/
def Solvable (g : Finset (T × T × T)) (P : Binding V T → Prop) :
    List (TriplePattern V T) → Binding V T → Prop
  | [], μ => P μ
  | p :: ps, μ => ∃ t ∈ g, ∃ ν ∈ p.extend μ t, Solvable g P ps ν

instance decidableSolvable (g : Finset (T × T × T)) (P : Binding V T → Prop) [DecidablePred P] :
    ∀ (ps : List (TriplePattern V T)) (μ : Binding V T), Decidable (Solvable g P ps μ)
  | [], μ => inferInstanceAs (Decidable (P μ))
  | p :: ps, μ =>
    have (ν : Binding V T) := decidableSolvable g P ps ν
    inferInstanceAs (Decidable (∃ t ∈ g, ∃ ν ∈ p.extend μ t, Solvable g P ps ν))

def vars (ps : List (TriplePattern V T)) : List V := ps.flatMap TriplePattern.vars

theorem solvable_iff {g : Finset (T × T × T)} {P : Binding V T → Prop}
    {ps : List (TriplePattern V T)} {μ : Binding V T} :
    Solvable g P ps μ ↔
      ∃ ν, Extends μ (vars ps) ν ∧ (∀ p ∈ ps, ∃ t ∈ g, p.Is ν t) ∧ P ν := by
  induction ps generalizing μ with
  | nil =>
    simp only [Solvable, vars, List.flatMap_nil, extends_nil, List.not_mem_nil, false_imp_iff,
      implies_true, true_and, exists_eq_left]
  | cons p ps ih =>
    simp only [Solvable, ih, vars, List.flatMap_cons, List.forall_mem_cons, Option.mem_def,
      TriplePattern.extend_eq_some]
    constructor
    · rintro ⟨t, ht, μ₁, ⟨h₁, hp⟩, ν, hν, hps, hP⟩
      exact ⟨ν, h₁.trans hν, ⟨⟨t, ht, hp.of_extends hν⟩, hps⟩, hP⟩
    · rintro ⟨ν, hν, ⟨⟨t, ht, hp⟩, hps⟩, hP⟩
      exact ⟨t, ht, restrict μ p.vars ν, ⟨hν.restrict, TriplePattern.is_restrict.mpr hp⟩, ν,
        hν.of_restrict, hps, hP⟩

/-- `ASK WHERE { outer FILTER NOT EXISTS { absent FILTER(filter) } }`. -/
structure AskNotExists (V T : Type*) where
  outer : List (TriplePattern V T)
  absent : List (TriplePattern V T)
  filter : Binding V T → Bool

/-- The answer to the query is yes. -/
def AskNotExists.Holds (q : AskNotExists V T) (g : Finset (T × T × T)) : Prop :=
  Solvable g (fun μ => ¬ Solvable g (fun ν => q.filter ν) q.absent μ) q.outer fun _ => none

instance (q : AskNotExists V T) (g : Finset (T × T × T)) : Decidable (q.Holds g) :=
  inferInstanceAs (Decidable (Solvable g _ q.outer _))

theorem AskNotExists.holds_iff {q : AskNotExists V T} {g : Finset (T × T × T)} :
    q.Holds g ↔ ∃ μ : Binding V T, (∀ v ∉ vars q.outer, μ v = none) ∧
      (∀ p ∈ q.outer, ∃ t ∈ g, p.Is μ t) ∧
      ¬ ∃ ν, Extends μ (vars q.absent) ν ∧ (∀ p ∈ q.absent, ∃ t ∈ g, p.Is ν t) ∧ q.filter ν := by
  have hextends : ∀ μ : Binding V T, Extends (fun _ => none) (vars q.outer) μ ↔
      ∀ v ∉ vars q.outer, μ v = none := fun μ =>
    ⟨fun h => h.only, fun h => ⟨fun _ _ hv => (nomatch hv), h⟩⟩
  simp only [Holds, solvable_iff, hextends]

end Sparql
