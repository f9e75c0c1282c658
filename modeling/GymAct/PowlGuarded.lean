import GymAct.PowlDigest
import Mathlib.Order.Lattice.Nat

/-!
# The guarded executor

`powl/guard_executor.py` : `execute` validates a model, takes its fingerprint and walks it,
invoking atoms and asking guards through callbacks. A callback is a function of a world that it
may change; the callbacks of the children of one level run in the order of their indices.
Checkpoints, contexts and the texts of refusals are left out.

`total_iff_unsplit` : on an accepted model the identity functions and the executor raise
refusals only, exactly when the model splits no pair of children.
-/

namespace GymAct.Powl

open Fallible

/-! ## Traces -/

/-- `ExecutionStep`. -/
structure ExecutionStep where
  kind : String
  label : Option String := none
  consequence : Option Consequence := none
  result : Option Value := none
  repetitionIndex : ℕ
  failed : Bool := false
  deriving DecidableEq

/-- `ExecutionTrace`. -/
structure ExecutionTrace where
  steps : List ExecutionStep
  choiceTransitionsTaken : ℕ
  deriving DecidableEq

/-- The callbacks of a walk. -/
structure Callbacks (σ : Type) where
  guardEvaluator : String → Payload → σ → Except PyError Bool × σ
  atomInvoker : Atom → σ → Except PyError Value × σ
  repeatEvaluator : Option (ℕ → σ → Except PyError Bool × σ) := none

/-- The world of the callbacks, the recorded steps and `transitions_taken`. -/
structure WalkState (σ : Type) where
  world : σ
  steps : List ExecutionStep
  transitions : ℕ

abbrev Walk (σ α : Type) := Prog Raised (WalkState σ) α

section Walk

variable {σ : Type} (K : PowlCanon) (cb : Callbacks σ) (maxChoiceTransitions : ℤ) (maxWorkers : ℤ)
  (fuel : ℕ)

/-- What a callback answers. -/
def ask {α : Type} (callback : σ → Except PyError α × σ) : Walk σ (Except PyError α) := do
  let s ← get
  set { s with world := (callback s.world).2 }
  return (callback s.world).1

/-- `sink.append`. -/
def append (step : ExecutionStep) : Walk σ Unit :=
  modify fun s => { s with steps := s.steps ++ [step] }

/-- An error that is raised on. -/
def raising {α : Type} : Except Raised α → Walk σ α
  | .ok a => pure a
  | .error e => throw e

/-- The child of an index. -/
def atIndex {n : ℕ} (child : Fin n → Walk σ Unit) (i : ℕ) : Walk σ Unit :=
  if h : i < n then child ⟨i, h⟩
  else throw (.error ⟨"IndexError", "tuple index out of range"⟩)

/-! ## Repetitions -/

/-- `_should_run_repetition`. -/
def shouldRunRepetition (frequency : Frequency) (completed : ℕ) : Walk σ Bool :=
  if completed < frequency.min then pure true
  else if frequency.max.any (· ≤ completed) then pure false
  else
    match cb.repeatEvaluator with
    | none => pure (completed = 0)
    | some evaluator => do
      let answer ← ask (evaluator completed)
      raising (answer.mapError .error)

/-- The loop of `_walk_partial_order_with_frequency` and `_walk_choice_graph_with_frequency`. -/
def repetitions (frequency : Frequency) (once : ℕ → Walk σ Unit) : Walk σ Unit :=
  loop (fun completed => do
    if ← shouldRunRepetition cb frequency completed then
      once completed
      return some (completed + 1)
    else return none) fuel 0

/-! ## Partial orders -/

/-- Where the walk of a partial order stands. -/
structure Frontier where
  completed : Finset ℕ
  indegree : ℕ → ℤ
  ready : Finset ℕ

namespace Frontier

/-- The frontier before the first level. -/
def initial (n : ℕ) (order : Finset OrderEdge) : Frontier :=
  let indegree (i : ℕ) : ℤ := (order.filter fun e => e.dst = i).card
  ⟨∅, indegree, (Finset.range n).filter fun i => indegree i = 0⟩

/-- `[i for i in ready if i not in completed]`, sorted. -/
def level (f : Frontier) : List ℕ := (f.ready \ f.completed).sort (· ≤ ·)

/-- A child of the level is done. -/
def done (n : ℕ) (order : Finset OrderEdge) (f : Frontier) (i : ℕ) : Frontier :=
  let completed := insert i f.completed
  let indegree (j : ℕ) := if ⟨i, j⟩ ∈ order then f.indegree j - 1 else f.indegree j
  ⟨completed, indegree, f.ready ∪
    (Finset.range n).filter fun j => ⟨i, j⟩ ∈ order ∧ indegree j = 0 ∧ j ∉ completed⟩

end Frontier

/-- `_run_child_buffered` : how a child ends, and its own steps. -/
def buffered (child : Walk σ Unit) : Walk σ (Except Raised Unit × List ExecutionStep) := do
  let s ← get
  set { s with steps := [] }
  let result ← attempt child
  let s' ← get
  set { s' with steps := s.steps }
  return (result, s'.steps)

/-- The buffered children of a level. -/
def runBuffered (child : ℕ → Walk σ Unit) :
    List ℕ → Walk σ (List (Except Raised Unit × List ExecutionStep))
  | [] => pure []
  | i :: level => do
    let result ← buffered (child i)
    let results ← runBuffered child level
    return result :: results

/-- The first error of a level, as it is raised on. -/
def firstRaised (results : List (Except Raised Unit × List ExecutionStep)) : Option PowlRefusal :=
  results.findSome? fun result =>
    match result.1 with
    | .ok _ => none
    | .error (.refusal r) => some r
    | .error (.error _) => some .childExecutionFailed

/-- The children of one level. -/
def runLevel (child : ℕ → Walk σ Unit) (level : List ℕ) : Walk σ Unit :=
  if 1 < maxWorkers ∧ 1 < level.length then do
    let results ← runBuffered child level
    (results.flatMap Prod.snd).forM append
    match firstRaised results with
    | none => pure ()
    | some r => throw (.refusal r)
  else level.forM child

/-- `_walk_partial_order_once`. -/
def walkPartialOrderOnce (n : ℕ) (order : Finset OrderEdge) (child : Fin n → Walk σ Unit) :
    Walk σ Unit :=
  loop (fun f => do
    if n ≤ f.completed.card ∨ f.level = [] then return none
    else
      runLevel maxWorkers (atIndex child) f.level
      return some (f.level.foldl (Frontier.done n order) f)) fuel (Frontier.initial n order)

/-! ## Choice graphs -/

/-- What `ChoiceGraphEdge.__lt__` compares. -/
def ChoiceGraphEdge.sortKey (e : ChoiceGraphEdge) : ℕ ×ₗ ℕ ×ₗ String :=
  toLex (e.src, toLex (e.dst, (e.guard.map Guard.key).getD ""))

/-- `sorted(e for e in node.edges if e.src == current)`. -/
def sortedOutgoing (edges : Finset ChoiceGraphEdge) (current : ℕ) : List ChoiceGraphEdge :=
  (K.listing (outgoing edges current)).insertionSort fun a b => a.sortKey ≤ b.sortKey

/-- The first edge whose guard holds, or else the last one without a guard before it. -/
def chooseEdge : List ChoiceGraphEdge → Option ChoiceGraphEdge → Walk σ (Option ChoiceGraphEdge)
  | [], elseEdge => pure elseEdge
  | e :: edges, elseEdge =>
    match e.guard with
    | none => chooseEdge edges (some e)
    | some g => do
      let answer ← ask (cb.guardEvaluator g.predicateName g.predicateArgs)
      if ← raising (answer.mapError .error) then return some e
      else chooseEdge edges elseEdge

/-- `_walk_choice_graph_once`. -/
def walkChoiceGraphOnce (n : ℕ) (body : ChoiceBody) (child : Fin n → Walk σ Unit) :
    Walk σ Unit := do
  atIndex child body.startIdx
  loop (fun current => do
    if current = body.endIdx then return none
    else
      match ← chooseEdge cb (sortedOutgoing K body.edges current) none with
      | none => throw (.refusal .noGuardMatched)
      | some chosen =>
        let s ← get
        if maxChoiceTransitions ≤ s.transitions then throw (.refusal .transitionBudgetExhausted)
        else
          set { s with transitions := s.transitions + 1 }
          atIndex child chosen.dst
          return some chosen.dst) fuel body.startIdx

/-! ## Walks -/

/-- `_walk`. -/
def walk : PowlNode → ℕ → Walk σ Unit
  | .start, repetitionIndex => append { kind := "Start", repetitionIndex }
  | .finish, repetitionIndex => append { kind := "End", repetitionIndex }
  | .silent, repetitionIndex => append { kind := "Silent", repetitionIndex }
  | .atom a, repetitionIndex => do
    match ← ask (cb.atomInvoker a) with
    | .ok result =>
      append { kind := "Atom", label := a.label, consequence := a.consequence, result,
               repetitionIndex }
    | .error _ =>
      append { kind := "Atom", label := a.label, consequence := a.consequence, repetitionIndex,
               failed := true }
      throw (.refusal .atomInvocationFailed)
  | .partialOrder n children body, _ =>
    repetitions cb fuel body.frequency fun completed =>
      walkPartialOrderOnce maxWorkers fuel n body.order fun i => walk (children i) completed
  | .choiceGraph n children body, _ =>
    repetitions cb fuel body.frequency fun completed =>
      walkChoiceGraphOnce K cb maxChoiceTransitions fuel n body fun i =>
        walk (children i) completed

/-- `execute`. -/
def execute (node : PowlNode) : Walk σ ExecutionTrace := do
  raising (refuse (validateModel node))
  let _ ← raising (K.nodeKey node)
  walk K cb maxChoiceTransitions maxWorkers fuel node 0
  let s ← get
  return ⟨s.steps, s.transitions⟩

end Walk

/-! ## What callbacks and models must be like -/

/-- The callbacks never raise. -/
structure Callbacks.Total {σ : Type} (cb : Callbacks σ) : Prop where
  guardEvaluator : ∀ name args s, ∃ holds, (cb.guardEvaluator name args s).1 = .ok holds
  atomInvoker : ∀ a s, ∃ result, (cb.atomInvoker a s).1 = .ok result
  repeatEvaluator : ∀ evaluator ∈ cb.repeatEvaluator, ∀ completed s,
    ∃ again, (evaluator completed s).1 = .ok again

/-- Every composite has a last repetition. -/
def PowlNode.BoundedRounds : PowlNode → Prop
  | .partialOrder _ children body => body.frequency.max ≠ none ∧ ∀ i, (children i).BoundedRounds
  | .choiceGraph _ children body => body.frequency.max ≠ none ∧ ∀ i, (children i).BoundedRounds
  | _ => True

/-- The repetitions a frequency gives room for, without an evaluator. -/
def Frequency.limit (f : Frequency) : ℕ := f.max.getD (Max.max f.min 1)

/-- More passes than any loop of a walk makes. -/
def walkFuel (maxChoiceTransitions : ℤ) : PowlNode → ℕ
  | .partialOrder n children body =>
    max (body.frequency.limit + 1) (max (n + 1)
      (Finset.univ.sup fun i => walkFuel maxChoiceTransitions (children i)))
  | .choiceGraph _ children body =>
    max (body.frequency.limit + 1) (max (maxChoiceTransitions.toNat + 1)
      (Finset.univ.sup fun i => walkFuel maxChoiceTransitions (children i)))
  | _ => 0

section Total

variable {σ : Type} {K : PowlCanon} {cb : Callbacks σ} {maxChoiceTransitions maxWorkers : ℤ}
  {fuel : ℕ} {div : Prop}

/-- A walk that raises refusals only, and counts transitions up. -/
def Sound {α : Type} (div : Prop) (w : Walk σ α) : Prop :=
  ∀ s, wp w (fun _ s' => s.transitions ≤ s'.transitions)
    (fun e s' => e.Typed ∧ s.transitions ≤ s'.transitions) div s

namespace Sound

variable {α β : Type}

theorem pure (a : α) : Sound div (Pure.pure a : Walk σ α) := fun _ => le_rfl

theorem refusal (r : PowlRefusal) : Sound div (throw (.refusal r) : Walk σ α) :=
  fun _ => ⟨trivial, le_rfl⟩

theorem append (step : ExecutionStep) : Sound div (Powl.append step : Walk σ Unit) := fun _ => le_rfl

theorem bind {w : Walk σ α} {f : α → Walk σ β} (hw : Sound div w) (hf : ∀ a, Sound div (f a)) :
    Sound div (w >>= f) := fun s => by
  rw [wp_bind]
  refine wp_mono (hw s) (fun a s₁ h₁ => ?_) fun _ _ => id
  exact wp_mono (hf a s₁) (fun _ _ h₂ => h₁.trans h₂) fun _ _ h₂ => ⟨h₂.1, h₁.trans h₂.2⟩

theorem forM {f : β → Walk σ Unit} {l : List β} (hf : ∀ b ∈ l, Sound div (f b)) :
    Sound div (l.forM f) := by
  induction l with
  | nil => exact .pure ()
  | cons b l ih =>
    exact .bind (hf b List.mem_cons_self) fun _ => ih fun b hb => hf b (List.mem_cons_of_mem _ hb)

/-- Asking a callback that does not raise. -/
theorem ask {callback : σ → Except PyError α × σ} (hcallback : ∀ s, ∃ a, (callback s).1 = .ok a) :
    Sound div (do raising ((← Powl.ask callback).mapError .error) : Walk σ α) := fun s => by
  obtain ⟨a, ha⟩ := hcallback s.world
  simp only [Powl.ask, wp_bind, wp_get, wp_set, wp_pure, ha]
  exact le_rfl

theorem atIndex {n : ℕ} {child : Fin n → Walk σ Unit} (hchild : ∀ i, Sound div (child i)) {i : ℕ}
    (hi : i < n) : Sound div (atIndex child i) := by
  rw [Powl.atIndex, dif_pos hi]
  exact hchild _

theorem buffered {child : Walk σ Unit} (hchild : Sound div child) (s : WalkState σ) :
    wp (Powl.buffered child) (fun result s' => (∀ e, result.1 = .error e → e.Typed) ∧
      s.transitions ≤ s'.transitions) (fun _ _ => False) div s := by
  simp only [Powl.buffered, wp_bind, wp_get, wp_set, wp_pure, wp_attempt]
  refine wp_mono (hchild { s with steps := [] }) (fun _ s' h => ⟨fun _ he => (by cases he), h⟩)
    fun e s' h => ⟨?_, h.2⟩
  rintro e' ⟨⟩
  exact h.1

end Sound

/-! ## Repetitions end -/

theorem lt_limit_of_lt_min {f : Frequency} {completed : ℕ} (h : completed < f.min) :
    completed < f.limit := by
  unfold Frequency.limit
  cases hmax : f.max with
  | none =>
    rw [Option.getD_none]
    omega
  | some m => exact h.trans_le (f.min_le m hmax)

/-- A repetition that runs is within the limit, or its evaluator may go on for ever. -/
theorem shouldRunRepetition_spec (hcb : cb.Total) {frequency : Frequency}
    (hbound : div ∨ cb.repeatEvaluator = none ∨ frequency.max ≠ none) (completed : ℕ)
    (s : WalkState σ) :
    wp (shouldRunRepetition cb frequency completed)
      (fun again s' => s.transitions ≤ s'.transitions ∧
        (again = true → div ∨ completed < frequency.limit))
      (fun e s' => e.Typed ∧ s.transitions ≤ s'.transitions) div s := by
  unfold shouldRunRepetition
  split
  · next hmin => exact ⟨le_rfl, fun _ => Or.inr (lt_limit_of_lt_min hmin)⟩
  split
  · exact ⟨le_rfl, nofun⟩
  · next hmin hmax =>
    cases hevaluator : cb.repeatEvaluator with
    | none =>
      refine ⟨le_rfl, fun hagain => Or.inr ?_⟩
      obtain rfl : completed = 0 := by simpa using hagain
      cases hlimit : frequency.max with
      | none => simp [Frequency.limit, hlimit]
      | some m =>
        simp only [hlimit, Option.any_some, decide_eq_true_eq] at hmax
        rw [Frequency.limit, hlimit, Option.getD_some]
        omega
    | some evaluator =>
      refine wp_mono (Sound.ask (hcb.repeatEvaluator evaluator hevaluator completed) s)
        (fun again s' hs' => ⟨hs', fun _ => ?_⟩) fun _ _ => id
      refine hbound.imp_right fun hbound => ?_
      rcases hbound with hnone | hsome
      · exact absurd hnone (by simp [hevaluator])
      · obtain ⟨m, hm⟩ := Option.ne_none_iff_exists'.mp hsome
        simp only [hm, Option.any_some, decide_eq_true_eq] at hmax
        simpa [Frequency.limit, hm] using hmax

theorem Sound.repetitions (hcb : cb.Total) {frequency : Frequency} {once : ℕ → Walk σ Unit}
    (honce : ∀ completed, Sound div (once completed))
    (hbound : div ∨ frequency.limit < fuel ∧ (cb.repeatEvaluator = none ∨ frequency.max ≠ none)) :
    Sound div (repetitions cb fuel frequency once) := fun s => by
  refine wp_loop (I := fun _ s' => s.transitions ≤ s'.transitions)
    (μ := fun completed _ => frequency.limit - completed) (fun completed s₁ h₁ => ?_) le_rfl
    (hbound.imp_right And.left)
  rw [wp_bind]
  refine wp_mono (shouldRunRepetition_spec hcb (hbound.imp_right And.right) completed s₁)
    (fun again s₂ h₂ => ?_) fun e s₂ h₂ => ⟨h₂.1, h₁.trans h₂.2⟩
  cases again with
  | false => exact h₁.trans h₂.1
  | true =>
    rw [if_pos rfl, wp_bind]
    refine wp_mono (honce completed s₂) (fun _ s₃ h₃ => ⟨(h₁.trans h₂.1).trans h₃, ?_⟩)
      fun e s₃ h₃ => ⟨h₃.1, (h₁.trans h₂.1).trans h₃.2⟩
    exact (h₂.2 rfl).imp_right fun hlt => by omega

/-! ## Levels end -/

theorem Sound.runBuffered {child : ℕ → Walk σ Unit} : ∀ {level : List ℕ},
    (∀ i ∈ level, Sound div (child i)) → ∀ s, wp (runBuffered child level)
      (fun results s' => (∀ result ∈ results, ∀ e, result.1 = .error e → e.Typed) ∧
        s.transitions ≤ s'.transitions) (fun _ _ => False) div s
  | [], _, s => ⟨nofun, le_rfl⟩
  | i :: level, hchild, s => by
    rw [Powl.runBuffered, wp_bind]
    refine wp_mono (Sound.buffered (hchild i List.mem_cons_self) s) (fun result s₁ h₁ => ?_)
      fun _ _ => id
    rw [wp_bind]
    refine wp_mono (Sound.runBuffered (fun i hi => hchild i (List.mem_cons_of_mem _ hi)) s₁)
      (fun results s₂ h₂ => ⟨?_, h₁.2.trans h₂.2⟩) fun _ _ => id
    exact List.forall_mem_cons.mpr ⟨h₁.1, h₂.1⟩

/-- A level raises refusals only, the error of a buffered child becoming one. -/
theorem Sound.runLevel {child : ℕ → Walk σ Unit} {level : List ℕ}
    (hchild : ∀ i ∈ level, Sound div (child i)) :
    Sound div (runLevel maxWorkers child level) := by
  unfold Powl.runLevel
  split
  · refine Sound.bind (fun s => ?_) fun results => ?_
    · exact wp_mono (Sound.runBuffered hchild s) (fun _ _ h => h.2) fun _ _ => False.elim
    · refine Sound.bind (Sound.forM fun step _ => .append step) fun _ => ?_
      split
      · exact .pure ()
      · exact .refusal _
  · exact Sound.forM hchild

namespace Frontier

variable {n : ℕ} {order : Finset OrderEdge}

theorem completed_foldl_done : ∀ (level : List ℕ) (f : Frontier),
    (level.foldl (done n order) f).completed = f.completed ∪ level.toFinset
  | [], f => by simp
  | i :: level, f => by
    rw [List.foldl_cons, completed_foldl_done level]
    ext j
    simp [done]

theorem ready_foldl_done : ∀ (level : List ℕ) {f : Frontier}, f.ready ⊆ Finset.range n →
    (level.foldl (done n order) f).ready ⊆ Finset.range n
  | [], _, h => h
  | i :: level, f, h => by
    refine ready_foldl_done level (Finset.union_subset h (Finset.filter_subset _ _))

/-- A frontier of `n` children. -/
structure Bounded (n : ℕ) (f : Frontier) : Prop where
  completed : f.completed ⊆ Finset.range n
  ready : f.ready ⊆ Finset.range n

theorem Bounded.level_lt {f : Frontier} (h : f.Bounded n) {i : ℕ} (hi : i ∈ f.level) : i < n :=
  Finset.mem_range.mp (h.ready (Finset.mem_sdiff.mp ((Finset.mem_sort _).mp hi)).1)

/-- A level that is not empty completes children. -/
theorem Bounded.next {f : Frontier} (h : f.Bounded n) (hlevel : f.level ≠ []) :
    (f.level.foldl (done n order) f).Bounded n ∧
      f.completed.card < (f.level.foldl (done n order) f).completed.card := by
  have hset : f.level.toFinset = f.ready \ f.completed := Finset.sort_toFinset ..
  have hcompleted := @completed_foldl_done n order f.level f
  refine ⟨⟨?_, ready_foldl_done _ h.ready⟩, Finset.card_lt_card ?_⟩
  · rw [hcompleted, hset]
    exact Finset.union_subset h.completed (Finset.sdiff_subset.trans h.ready)
  · obtain ⟨i, hi⟩ := List.exists_mem_of_ne_nil _ hlevel
    have hi' : i ∈ f.ready \ f.completed := hset ▸ List.mem_toFinset.mpr hi
    rw [hcompleted, hset]
    refine Finset.ssubset_iff_subset_ne.mpr ⟨Finset.subset_union_left, fun heq => ?_⟩
    exact (Finset.mem_sdiff.mp hi').2 (heq ▸ Finset.mem_union_right _ hi')

end Frontier

theorem Sound.walkPartialOrderOnce {n : ℕ} {order : Finset OrderEdge} {child : Fin n → Walk σ Unit}
    (hchild : ∀ i, Sound div (child i)) (hfuel : div ∨ n < fuel) :
    Sound div (walkPartialOrderOnce maxWorkers fuel n order child) := fun s => by
  refine wp_loop (I := fun (f : Frontier) s' => f.Bounded n ∧ s.transitions ≤ s'.transitions)
    (μ := fun f _ => n - f.completed.card) (fun f s₁ h₁ => ?_)
    ⟨⟨Finset.empty_subset _, Finset.filter_subset _ _⟩, le_rfl⟩ (hfuel.imp_right (by simp [Frontier.initial]))
  obtain ⟨hbounded, h₁⟩ := h₁
  split
  · exact h₁
  · next hlevel =>
    rw [not_or] at hlevel
    rw [wp_bind]
    refine wp_mono (Sound.runLevel (fun i hi => .atIndex hchild (hbounded.level_lt hi)) s₁)
      (fun _ s₂ h₂ => ?_) fun e s₂ h₂ => ⟨h₂.1, h₁.trans h₂.2⟩
    obtain ⟨hbounded', hlt⟩ := @Frontier.Bounded.next n order f hbounded hlevel.2
    exact ⟨⟨hbounded', h₁.trans h₂⟩, Or.inr (by omega)⟩

/-! ## Transitions end -/

theorem mem_of_sortedOutgoing (hK : K.Lists) {edges : Finset ChoiceGraphEdge} {current : ℕ}
    {e : ChoiceGraphEdge} (h : e ∈ sortedOutgoing K edges current) : e ∈ edges :=
  (Finset.mem_filter.mp ((hK _ _).mp ((List.mem_insertionSort _).mp h))).1

theorem Sound.chooseEdge (hcb : cb.Total) {edges : Finset ChoiceGraphEdge} :
    ∀ {l : List ChoiceGraphEdge} {elseEdge : Option ChoiceGraphEdge}, (∀ e ∈ l, e ∈ edges) →
      (∀ e ∈ elseEdge, e ∈ edges) → ∀ s : WalkState σ, wp (chooseEdge cb l elseEdge)
        (fun chosen s' => (∀ e ∈ chosen, e ∈ edges) ∧ s.transitions ≤ s'.transitions)
        (fun e s' => e.Typed ∧ s.transitions ≤ s'.transitions) div s
  | [], _, _, helse, s => ⟨helse, le_rfl⟩
  | e :: l, elseEdge, hl, helse, s => by
    obtain ⟨he, hl⟩ := List.forall_mem_cons.mp hl
    unfold Powl.chooseEdge
    split
    · exact Sound.chooseEdge hcb hl (by simpa using he) s
    · next g _ =>
      have hask := @Sound.ask σ div _ _ (hcb.guardEvaluator g.predicateName g.predicateArgs) s
      rw [wp_bind] at hask ⊢
      refine wp_mono hask (fun answer s₁ h₁ => ?_) fun _ _ => id
      rw [wp_bind]
      refine wp_mono h₁ (fun holds s₂ h₂ => ?_) fun _ _ => id
      cases holds with
      | true => exact ⟨by simpa using he, h₂⟩
      | false =>
        exact wp_mono (Sound.chooseEdge hcb hl helse s₂) (fun _ _ h₃ => ⟨h₃.1, h₂.trans h₃.2⟩)
          fun _ _ h₃ => ⟨h₃.1, h₂.trans h₃.2⟩

theorem Sound.walkChoiceGraphOnce (hK : K.Lists) (hcb : cb.Total) {n : ℕ} {body : ChoiceBody}
    (hbody : body.WellFormed n) {child : Fin n → Walk σ Unit} (hchild : ∀ i, Sound div (child i))
    (hfuel : div ∨ maxChoiceTransitions.toNat < fuel) :
    Sound div (walkChoiceGraphOnce K cb maxChoiceTransitions fuel n body child) := by
  refine Sound.bind (.atIndex hchild hbody.startIdx_lt) fun _ s => ?_
  refine wp_loop (I := fun _ s' => s.transitions ≤ s'.transitions)
    (μ := fun _ s' => maxChoiceTransitions.toNat - s'.transitions) (fun current s₁ h₁ => ?_) le_rfl
    (hfuel.imp_right fun hlt => by omega)
  split
  · exact h₁
  rw [wp_bind]
  refine wp_mono (Sound.chooseEdge hcb (fun e => mem_of_sortedOutgoing hK) (by simp) s₁)
    (fun chosen s₂ h₂ => ?_) fun _ _ h₂ => ⟨h₂.1, h₁.trans h₂.2⟩
  have h₁₂ := h₁.trans h₂.2
  cases chosen with
  | none => exact ⟨trivial, h₁₂⟩
  | some e =>
    simp only [wp_bind, wp_get]
    split
    · exact ⟨trivial, h₁₂⟩
    · next hbudget =>
      simp only [wp_bind, wp_set]
      refine wp_mono (Sound.atIndex hchild (hbody.bounded e (h₂.1 e rfl)).2 _) (fun _ s₃ h₃ => ?_)
        fun _ s₃ h₃ => ⟨h₃.1, ?_⟩
      · simp only at h₃
        exact ⟨by omega, Or.inr (by omega)⟩
      · have h₃' := h₃.2
        simp only at h₃'
        omega

/-! ## Walks end -/

/-- Room for every loop of a walk, and a last repetition of each. -/
def Enough (cb : Callbacks σ) (maxChoiceTransitions : ℤ) (fuel : ℕ) (node : PowlNode) : Prop :=
  walkFuel maxChoiceTransitions node ≤ fuel ∧ (cb.repeatEvaluator = none ∨ node.BoundedRounds)

theorem walkFuel_child_le {n : ℕ} {children : Fin n → PowlNode} (i : Fin n) :
    walkFuel maxChoiceTransitions (children i) ≤
      Finset.univ.sup fun i => walkFuel maxChoiceTransitions (children i) :=
  Finset.le_sup (f := fun i => walkFuel maxChoiceTransitions (children i)) (Finset.mem_univ i)

theorem Sound.walk (hK : K.Lists) (hcb : cb.Total) : ∀ {node : PowlNode} (_ : node.WellFormed)
    (_ : div ∨ Enough cb maxChoiceTransitions fuel node) (repetitionIndex : ℕ),
    Sound div (walk K cb maxChoiceTransitions maxWorkers fuel node repetitionIndex)
  | .start, _, _, _ | .finish, _, _, _ | .silent, _, _, _ => .append _
  | .atom a, _, _, _ => by
    refine Sound.bind (fun s => ?_) fun result => ?_
    · simp only [Powl.ask, wp_bind, wp_get, wp_set, wp_pure]
      exact le_rfl
    · cases result with
      | ok result => exact .append _
      | error e => exact Sound.bind (.append _) fun _ => .refusal _
  | .partialOrder n children body, hbody, hfuel, _ => by
    have hchild (i : Fin n) : div ∨ Enough cb maxChoiceTransitions fuel (children i) :=
      hfuel.imp_right fun h => ⟨(walkFuel_child_le i).trans ((le_max_right _ _).trans
        ((le_max_right _ _).trans h.1)), h.2.imp_right fun h => h.2 i⟩
    refine Sound.repetitions hcb (fun completed => Sound.walkPartialOrderOnce
      (fun i => Sound.walk hK hcb (hbody.2 i) (hchild i) completed) ?_) ?_
    · exact hfuel.imp_right fun h => (le_max_left _ _).trans ((le_max_right _ _).trans h.1)
    · exact hfuel.imp_right fun h => ⟨(le_max_left _ _).trans h.1, h.2.imp_right And.left⟩
  | .choiceGraph n children body, hbody, hfuel, _ => by
    have hchild (i : Fin n) : div ∨ Enough cb maxChoiceTransitions fuel (children i) :=
      hfuel.imp_right fun h => ⟨(walkFuel_child_le i).trans ((le_max_right _ _).trans
        ((le_max_right _ _).trans h.1)), h.2.imp_right fun h => h.2 i⟩
    refine Sound.repetitions hcb (fun completed => Sound.walkChoiceGraphOnce hK hcb hbody.1
      (fun i => Sound.walk hK hcb (hbody.2 i) (hchild i) completed) ?_) ?_
    · exact hfuel.imp_right fun h => (le_max_left _ _).trans ((le_max_right _ _).trans h.1)
    · exact hfuel.imp_right fun h => ⟨(le_max_left _ _).trans h.1, h.2.imp_right And.left⟩

theorem Sound.execute (hK : K.Lists) (hcb : cb.Total) {node : PowlNode} (hvalid : validateModel node = .ok ())
    (hunsplit : node.Unsplit) (hfuel : div ∨ Enough cb maxChoiceTransitions fuel node) :
    Sound div (execute K cb maxChoiceTransitions maxWorkers fuel node) := by
  obtain ⟨key, hkey⟩ := (nodeKey_isOk_iff hK).mpr hunsplit
  unfold Powl.execute
  rw [hvalid, hkey]
  refine Sound.bind (.pure ()) fun _ => Sound.bind (.pure key) fun _ => ?_
  refine Sound.bind (Sound.walk hK hcb (wellFormed_of_validateModel hvalid) hfuel 0) fun _ => ?_
  exact Sound.bind (fun _ => le_rfl) fun s => .pure _

end Total

/-! ## Totality -/

/-- The identity functions and the executor raise refusals only on a model : it has an
identity, its digest raises no other error, and under callbacks that do not raise neither does
its execution, which ends if every composite has a last repetition. -/
structure RaisesRefusalsOnly (K : PowlCanon) (model : PowlNode) : Prop where
  nodeId : ∃ id, K.nodeId model = .ok id
  modelDigest : ∀ e, K.modelDigest model = .error e → e.Typed
  execute : ∀ (σ : Type) (cb : Callbacks σ), cb.Total → ∀ maxChoiceTransitions maxWorkers fuel s e s',
    Powl.execute K cb maxChoiceTransitions maxWorkers fuel model s = some (.error e, s') → e.Typed
  ends : ∀ (σ : Type) (cb : Callbacks σ), cb.Total →
    (cb.repeatEvaluator = none ∨ model.BoundedRounds) → ∀ maxChoiceTransitions maxWorkers, ∃ N,
      ∀ fuel, N ≤ fuel → ∀ s, Powl.execute K cb maxChoiceTransitions maxWorkers fuel model s ≠ none

theorem raisesRefusalsOnly_iff {K : PowlCanon} (hK : K.Lists) {model : PowlNode}
    (hvalid : validateModel model = .ok ()) : RaisesRefusalsOnly K model ↔ model.Unsplit := by
  constructor
  · exact fun h => (nodeId_isOk_iff hK).mp h.nodeId
  · intro hunsplit
    refine ⟨(nodeId_isOk_iff hK).mpr hunsplit, fun e he => ?_, ?_, ?_⟩
    · have hdigest := modelDigest_meets hK hunsplit
      rwa [he] at hdigest
    · intro σ cb hcb maxChoiceTransitions maxWorkers fuel s e s' hrun
      have hsound : Sound True (Powl.execute K cb maxChoiceTransitions maxWorkers fuel model) :=
        .execute hK hcb hvalid hunsplit (Or.inl trivial)
      have hwp := hsound s
      rw [wp, hrun] at hwp
      exact hwp.1
    · intro σ cb hcb hrounds maxChoiceTransitions maxWorkers
      refine ⟨walkFuel maxChoiceTransitions model, fun fuel hfuel s hrun => ?_⟩
      have hsound : Sound False (Powl.execute K cb maxChoiceTransitions maxWorkers fuel model) :=
        .execute hK hcb hvalid hunsplit (Or.inr ⟨hfuel, hrounds⟩)
      have hwp := hsound s
      rwa [wp, hrun] at hwp

/-- Two children, with edges between them. -/
def pairGraph (edges : Finset ChoiceGraphEdge) : PowlNode :=
  .choiceGraph 2 ![.start, .finish] { edges }

def readyEdge : ChoiceGraphEdge := ⟨0, 1, some { predicateName := "ready", key := "ready" }⟩

theorem lists_reference : PowlCanon.reference.Lists := fun _ _ => Finset.mem_toList

theorem not_unsplit_pairGraph : ¬(pairGraph {readyEdge, ⟨0, 1, none⟩}).Unsplit := fun h =>
  Bool.false_ne_true (h.1 ⟨0, 1, none⟩ (by simp) readyEdge (by simp) rfl rfl)

/-- A guarded edge and an `else` to the same child are accepted, and cannot be sorted : the
model has no identity and is not executed. -/
theorem splitEdges_raise : validateModel (pairGraph {readyEdge, ⟨0, 1, none⟩}) = .ok () ∧
    (∃ e, PowlCanon.reference.nodeId (pairGraph {readyEdge, ⟨0, 1, none⟩}) = .error (.error e)) ∧
      ∀ (σ : Type) (cb : Callbacks σ) maxChoiceTransitions maxWorkers fuel s, ∃ e,
        execute .reference cb maxChoiceTransitions maxWorkers fuel
          (pairGraph {readyEdge, ⟨0, 1, none⟩}) s = some (.error (.error e), s) := by
  obtain ⟨⟨⟩, hvalid⟩ := Fallible.exists_eq_ok_of_isOk
    (x := validateModel (pairGraph {readyEdge, ⟨0, 1, none⟩})) (by decide +kernel)
  refine ⟨hvalid, nodeId_raises lists_reference not_unsplit_pairGraph, fun σ cb _ _ _ s => ?_⟩
  obtain ⟨e, he⟩ := nodeKey_raises lists_reference not_unsplit_pairGraph
  refine ⟨e, ?_⟩
  unfold execute
  rw [hvalid, he]
  rfl

theorem raisesRefusalsOnly_guarded :
    validateModel (pairGraph {readyEdge}) = .ok () ∧
      RaisesRefusalsOnly .reference (pairGraph {readyEdge}) := by
  obtain ⟨⟨⟩, hvalid⟩ := Fallible.exists_eq_ok_of_isOk (x := validateModel (pairGraph {readyEdge}))
    (by decide +kernel)
  refine ⟨hvalid, (raisesRefusalsOnly_iff lists_reference hvalid).mpr ⟨?_, ?_⟩⟩
  · simp [ChoiceBody.Unsplit]
  · exact Fin.forall_fin_two.mpr ⟨trivial, trivial⟩

end GymAct.Powl
