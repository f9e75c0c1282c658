import GymAct.ForkJoin
import GymAct.PowlExecutor
import GymAct.PowlGuarded

/-!
# Walks of threads

`powl/guard_executor.py` once more, its callbacks and its counter being calls of an object that
the threads share : the children of a level are forked, each with steps of its own, and run by so
many workers. A walk records when it enters and leaves a node and a repetition; that record is
not in the source.

`execute_threads` : if the callbacks are pure and a walk without threads returns a trace, then
under any number of workers every schedule returns that trace.
-/

namespace GymAct.Powl.Threads

open Fallible (Returns)
open ForkJoin

/-! ## What threads share -/

/-- What is recorded of a walk. -/
inductive Event
  | walk (path : NodePath)
  | walked (path : NodePath)
  | repetition (path : NodePath) (completed : ℕ)
  | repeated (path : NodePath) (completed : ℕ)
  deriving DecidableEq

/-- The callbacks, `_Counter.try_increment` and the record. -/
inductive Op
  | guardEvaluator (name : String) (args : Payload)
  | atomInvoker (a : Atom)
  | repeatEvaluator (completed : ℕ)
  | tryIncrement
  | record (e : Event)

@[reducible] def Op.Answer : Op → Type
  | guardEvaluator _ _ => Except PyError Bool
  | atomInvoker _ => Except PyError Value
  | repeatEvaluator _ => Except PyError Bool
  | tryIncrement => Bool
  | record _ => Unit

@[reducible] def walkSig : Sig := ⟨Op, Op.Answer⟩

/-- `transitions_taken`, and the record. -/
structure Shared where
  transitions : ℕ
  log : List Event

/-- What callbacks may answer. -/
structure Answers where
  guardEvaluator : String → Payload → Set (Except PyError Bool)
  atomInvoker : Atom → Set (Except PyError Value)
  repeatEvaluator : ℕ → Set (Except PyError Bool)

/-- The calls of the shared object. -/
def Performs (cb : Answers) (maxChoiceTransitions : ℤ) : (op : Op) → Shared → op.Answer → Shared → Prop
  | .guardEvaluator name args, s, r, s' => r ∈ cb.guardEvaluator name args ∧ s' = s
  | .atomInvoker a, s, r, s' => r ∈ cb.atomInvoker a ∧ s' = s
  | .repeatEvaluator completed, s, r, s' => r ∈ cb.repeatEvaluator completed ∧ s' = s
  | .tryIncrement, s, r, s' =>
    if maxChoiceTransitions ≤ s.transitions then r = false ∧ s' = s
    else r = true ∧ s' = { s with transitions := s.transitions + 1 }
  | .record e, s, _, s' => s' = { s with log := s.log ++ [e] }

/-! ## Walks -/

/-- How a walk ends, and the steps in its sink. -/
abbrev Outcome := Except Raised Unit × List ExecutionStep

abbrev Walker (α : Type) :=
  ExceptT Raised (StateT (List ExecutionStep) (Thread walkSig Outcome)) α

section Walker

variable (K : PowlCanon) (repeats : Bool) (maxWorkers : ℤ) (fuel : ℕ)

/-- A call of the shared object. -/
def perform (op : Op) : Walker op.Answer := fun steps =>
  Thread.call (S := walkSig) op fun r => Thread.ret (.ok r, steps)

/-- `sink.append`. -/
def append (step : ExecutionStep) : Walker Unit := modify fun steps => steps ++ [step]

/-- An error that is raised on. -/
def raising {α : Type} : Except Raised α → Walker α
  | .ok a => pure a
  | .error e => throw e

/-- Repeat a step until it says to stop, at most so many times. -/
def loop {β : Type} (step : β → Walker (Option β)) : ℕ → β → Walker Unit
  | 0, _ => fun _ => Thread.diverge
  | fuel + 1, b => do
    match ← step b with
    | none => pure ()
    | some b' => loop step fuel b'

/-- The child of an index. -/
def atIndex {n : ℕ} (child : Fin n → Walker Unit) (i : ℕ) : Walker Unit :=
  if h : i < n then child ⟨i, h⟩
  else throw (.error ⟨"IndexError", "tuple index out of range"⟩)

/-- `_should_run_repetition`; `repeats` says whether there is a `repeat_evaluator`. -/
def shouldRunRepetition (frequency : Frequency) (completed : ℕ) : Walker Bool :=
  if completed < frequency.min then pure true
  else if frequency.max.any (· ≤ completed) then pure false
  else if repeats then do
    let answer ← perform (.repeatEvaluator completed)
    raising (answer.mapError .error)
  else pure (completed = 0)

/-- The loop of `_walk_partial_order_with_frequency` and `_walk_choice_graph_with_frequency`. -/
def repetitions (frequency : Frequency) (path : NodePath) (once : ℕ → Walker Unit) : Walker Unit :=
  loop (fun completed => do
    if ← shouldRunRepetition repeats frequency completed then
      perform (.record (.repetition path completed))
      once completed
      perform (.record (.repeated path completed))
      return some (completed + 1)
    else return none) fuel 0

/-- `_run_child_buffered` of the children of a level, in a pool of so many workers. -/
def pooled (workers : ℕ) {n : ℕ} (child : Fin n → Walker Unit) : Walker (List Outcome) := fun steps =>
  Thread.fork workers n (fun i => child i []) fun results => Thread.ret (.ok (List.ofFn results), steps)

/-- The children of one level. -/
def runLevel (child : ℕ → Walker Unit) (level : List ℕ) : Walker Unit :=
  if 1 < maxWorkers ∧ 1 < level.length then do
    let results ← pooled (min maxWorkers.toNat level.length) fun i => child (level.get i)
    (results.flatMap Prod.snd).forM append
    match firstRaised results with
    | none => pure ()
    | some r => throw (.refusal r)
  else level.forM child

/-- `_walk_partial_order_once`. -/
def walkPartialOrderOnce (n : ℕ) (order : Finset OrderEdge) (child : Fin n → Walker Unit) :
    Walker Unit :=
  loop (fun f => do
    if n ≤ f.completed.card ∨ f.level = [] then return none
    else
      runLevel maxWorkers (atIndex child) f.level
      return some (f.level.foldl (Frontier.done n order) f)) fuel (Frontier.initial n order)

/-- The first edge whose guard holds, or else the last one without a guard before it. -/
def chooseEdge : List ChoiceGraphEdge → Option ChoiceGraphEdge → Walker (Option ChoiceGraphEdge)
  | [], elseEdge => pure elseEdge
  | e :: edges, elseEdge =>
    match e.guard with
    | none => chooseEdge edges (some e)
    | some g => do
      let answer ← perform (.guardEvaluator g.predicateName g.predicateArgs)
      if ← raising (answer.mapError .error) then return some e
      else chooseEdge edges elseEdge

/-- `_walk_choice_graph_once`. -/
def walkChoiceGraphOnce (n : ℕ) (body : ChoiceBody) (child : Fin n → Walker Unit) : Walker Unit := do
  atIndex child body.startIdx
  loop (fun current => do
    if current = body.endIdx then return none
    else
      match ← chooseEdge (sortedOutgoing K body.edges current) none with
      | none => throw (.refusal .noGuardMatched)
      | some chosen =>
        if ← perform .tryIncrement then
          atIndex child chosen.dst
          return some chosen.dst
        else throw (.refusal .transitionBudgetExhausted)) fuel body.startIdx

/-- A walk of the node at a path. -/
def entered (path : NodePath) (body : Walker Unit) : Walker Unit := do
  perform (.record (.walk path))
  body
  perform (.record (.walked path))

/-- `_walk`. -/
def walk : PowlNode → NodePath → ℕ → Walker Unit
  | .start, path, repetitionIndex =>
    entered path (append { kind := "Start", repetitionIndex })
  | .finish, path, repetitionIndex => entered path (append { kind := "End", repetitionIndex })
  | .silent, path, repetitionIndex => entered path (append { kind := "Silent", repetitionIndex })
  | .atom a, path, repetitionIndex => entered path do
    match ← perform (.atomInvoker a) with
    | .ok result =>
      append { kind := "Atom", label := a.label, consequence := a.consequence, result,
               repetitionIndex }
    | .error _ =>
      append { kind := "Atom", label := a.label, consequence := a.consequence, repetitionIndex,
               failed := true }
      throw (.refusal .atomInvocationFailed)
  | .partialOrder n children body, path, _ => entered path <|
    repetitions repeats fuel body.frequency path fun completed =>
      walkPartialOrderOnce maxWorkers fuel n body.order fun i =>
        walk (children i) (path ++ [i.val]) completed
  | .choiceGraph n children body, path, _ => entered path <|
    repetitions repeats fuel body.frequency path fun completed =>
      walkChoiceGraphOnce K fuel n body fun i => walk (children i) (path ++ [i.val]) completed

/-- `execute`. -/
def execute (node : PowlNode) : Walker Unit := do
  raising (refuse (validateModel node))
  let _ ← raising (K.nodeKey node)
  walk K repeats maxWorkers fuel node [] 0

/-- How `execute` ends. -/
def returned : Outcome → Shared → Except Raised ExecutionTrace
  | (.ok _, steps), s => .ok ⟨steps, s.transitions⟩
  | (.error e, _), _ => .error e

end Walker

/-! ## Pure callbacks -/

/-- Callbacks whose answers depend on what they are asked alone. -/
structure PureCallbacks where
  guardEvaluator : String → Payload → Except PyError Bool
  atomInvoker : Atom → Except PyError Value
  repeatEvaluator : Option (ℕ → Except PyError Bool) := none

namespace PureCallbacks

variable (cb : PureCallbacks)

/-- The callbacks of a walk without threads. -/
def callbacks : Callbacks Unit where
  guardEvaluator name args s := (cb.guardEvaluator name args, s)
  atomInvoker a s := (cb.atomInvoker a, s)
  repeatEvaluator := cb.repeatEvaluator.map fun evaluator completed s => (evaluator completed, s)

/-- What a call is answered while transitions are left. -/
def answer : (op : Op) → op.Answer
  | .guardEvaluator name args => cb.guardEvaluator name args
  | .atomInvoker a => cb.atomInvoker a
  | .repeatEvaluator completed => cb.repeatEvaluator.elim (.ok false) (· completed)
  | .tryIncrement => true
  | .record _ => ()

/-- The only answers. -/
def answers : Answers where
  guardEvaluator name args := {cb.answer (.guardEvaluator name args)}
  atomInvoker a := {cb.answer (.atomInvoker a)}
  repeatEvaluator completed := {cb.answer (.repeatEvaluator completed)}

end PureCallbacks

/-- The transitions that a call takes. -/
def Op.weight : Op → ℕ
  | tryIncrement => 1
  | _ => 0

theorem metered (cb : PureCallbacks) (maxChoiceTransitions : ℤ) :
    Metered (S := walkSig) (Performs cb.answers maxChoiceTransitions) cb.answer Op.weight
      Shared.transitions maxChoiceTransitions.toNat where
  exact := by
    intro op s r s' hspent h
    cases op with
    | tryIncrement =>
      simp only [Op.weight] at hspent
      have hlt : ¬maxChoiceTransitions ≤ s.transitions := by omega
      simp only [Performs, if_neg hlt] at h
      obtain ⟨rfl, rfl⟩ := h
      exact ⟨rfl, rfl⟩
    | record e =>
      obtain rfl := h
      exact ⟨rfl, rfl⟩
    | _ =>
      obtain ⟨hr, rfl⟩ := h
      exact ⟨hr, rfl⟩
  total := by
    intro op s hspent
    cases op with
    | tryIncrement =>
      simp only [Op.weight] at hspent
      have hlt : ¬maxChoiceTransitions ≤ s.transitions := by omega
      exact ⟨{ s with transitions := s.transitions + 1 }, (if_neg hlt).mpr ⟨rfl, rfl⟩⟩
    | record e => exact ⟨_, rfl⟩
    | _ => exact ⟨s, rfl, rfl⟩

section Agrees

variable {K : PowlCanon} {cb : PureCallbacks} {maxChoiceTransitions maxWorkers : ℤ} {fuel : ℕ}
  {α β : Type}

/-- What a thread of a walk gives : it returns, adds steps of its own and takes transitions. -/
def Yields (cb : PureCallbacks) (t : Walker α) (a : α) (own : List ExecutionStep) (d : ℕ) : Prop :=
  ∀ steps, ∃ m, Gives (S := walkSig) cb.answer Op.weight (t steps) (.ok a, steps ++ own) d m

theorem bind_run (t : Walker α) (f : α → Walker β) (steps : List ExecutionStep) :
    (t >>= f) steps = (t steps).bind fun p =>
      match p.1 with
      | .ok a => f a p.2
      | .error e => .ret (.error e, p.2) := by
  change (t steps).bind _ = _
  congr 1
  funext p
  rcases p with ⟨e | a, steps'⟩ <;> rfl

namespace Yields

theorem pure (a : α) : Yields cb (Pure.pure a : Walker α) a [] 0 := fun steps => by
  refine ⟨0, ?_⟩
  rw [List.append_nil]
  exact .ret _

theorem bind {t : Walker α} {f : α → Walker β} {a : α} {b : β} {own own' : List ExecutionStep}
    {d d' : ℕ} (ht : Yields cb t a own d) (hf : Yields cb (f a) b own' d') :
    Yields cb (t >>= f) b (own ++ own') (d + d') := fun steps => by
  obtain ⟨m, hm⟩ := ht steps
  obtain ⟨m', hm'⟩ := hf (steps ++ own)
  refine ⟨m + m', ?_⟩
  rw [bind_run, ← List.append_assoc]
  exact hm.bind hm'

theorem andThen {t : Walker α} {f : α → Walker β} {a : α} {b : β} {own : List ExecutionStep} {d : ℕ}
    (ht : Yields cb t a own d) (hf : Yields cb (f a) b [] 0) : Yields cb (t >>= f) b own d := by
  have h := ht.bind hf
  rwa [List.append_nil] at h

theorem perform (op : Op) : Yields cb (Threads.perform op) (cb.answer op) [] op.weight :=
  fun steps => by
    refine ⟨1, ?_⟩
    rw [List.append_nil]
    show Gives cb.answer Op.weight (Thread.call (S := walkSig) op fun r =>
      Thread.ret ((Except.ok r : Except Raised op.Answer), steps)) _ (op.weight + 0) 1
    exact .call (.ret _)

theorem append (step : ExecutionStep) : Yields cb (Threads.append step) () [step] 0 := fun _ =>
  ⟨0, .ret _⟩

/-- A record adds nothing. -/
theorem record_bind {e : Event} {t : Walker α} {a : α} {own : List ExecutionStep} {d : ℕ}
    (ht : Yields cb t a own d) :
    Yields cb (Threads.perform (.record e) >>= fun _ => t) a own d := by
  have hrecord : Yields cb (Threads.perform (.record e)) () [] 0 := .perform (.record e)
  have h := hrecord.bind (f := fun _ => t) ht
  rwa [List.nil_append, Nat.zero_add] at h

/-- All steps of a list are added. -/
theorem forM_append (steps : List ExecutionStep) :
    Yields cb (steps.forM Threads.append) ⟨⟩ steps 0 := by
  induction steps with
  | nil => exact .pure _
  | cons step steps ih =>
    exact (Yields.append step).bind (f := fun _ => steps.forM Threads.append) ih

/-- What the children of a level yield, in a pool. -/
theorem pooled {workers n : ℕ} (hworkers : 0 < workers) {child : Fin n → Walker Unit}
    {own : Fin n → List ExecutionStep} {d : Fin n → ℕ}
    (hchild : ∀ i, Yields cb (child i) () (own i) (d i)) :
    Yields cb (Threads.pooled workers child) (List.ofFn fun i => (.ok (), own i)) [] (∑ i, d i) :=
  fun steps => by
    choose m hm using fun i => hchild i []
    have hret : Gives (S := walkSig) (ρ := Outcome) cb.answer Op.weight
        (Thread.ret ((Except.ok (List.ofFn fun i => (Except.ok (), own i)) :
          Except Raised (List Outcome)), steps)) _ 0 0 := .ret _
    have hfork := Gives.fork (k := fun results =>
      Thread.ret ((Except.ok (List.ofFn results) : Except Raised (List Outcome)), steps))
      (r := fun i => (Except.ok (), own i)) hworkers hm hret
    rw [List.append_nil]
    exact ⟨_, hfork⟩

end Yields

/-- Where a walk without threads returns, the walk of threads gives the same. -/
def Agrees (cb : PureCallbacks) (maxChoiceTransitions : ℤ) (w : Walk Unit α) (t : Walker α) : Prop :=
  ∀ s a s', Returns w s a s' → ∃ own d, s'.steps = s.steps ++ own ∧
    s'.transitions = s.transitions + d ∧ (d = 0 ∨ (s'.transitions : ℤ) ≤ maxChoiceTransitions) ∧
      Yields cb t a own d

namespace Agrees

theorem pure (a : α) : Agrees cb maxChoiceTransitions (Pure.pure a) (Pure.pure a) := by
  intro s b s' h
  obtain ⟨rfl, rfl⟩ := Fallible.returns_pure_iff.mp h
  exact ⟨[], 0, (List.append_nil _).symm, rfl, .inl rfl, .pure _⟩

theorem bind {w : Walk Unit α} {t : Walker α} {f : α → Walk Unit β} {g : α → Walker β}
    (hw : Agrees cb maxChoiceTransitions w t) (hf : ∀ a, Agrees cb maxChoiceTransitions (f a) (g a)) :
    Agrees cb maxChoiceTransitions (w >>= f) (t >>= g) := by
  intro s b s'' h
  obtain ⟨a, s', hfirst, hrest⟩ := Fallible.returns_bind_iff.mp h
  obtain ⟨own, d, hsteps, htransitions, hlimit, hyields⟩ := hw s a s' hfirst
  obtain ⟨own', d', hsteps', htransitions', hlimit', hyields'⟩ := hf a s' b s'' hrest
  refine ⟨own ++ own', d + d', ?_, by omega, by omega, hyields.bind hyields'⟩
  rw [hsteps', hsteps, List.append_assoc]

theorem throw (e : Raised) (t : Walker α) : Agrees cb maxChoiceTransitions (MonadExcept.throw e) t :=
  nofun

theorem raising (x : Except Raised α) :
    Agrees cb maxChoiceTransitions (Powl.raising x) (Threads.raising x) := by
  cases x with
  | ok a => exact .pure a
  | error e => exact .throw e _

theorem append (step : ExecutionStep) :
    Agrees cb maxChoiceTransitions (Powl.append step) (Threads.append step) := by
  intro s a s' h
  cases h
  exact ⟨[step], 0, rfl, rfl, .inl rfl, .append step⟩

theorem ite {c : Prop} [Decidable c] {w w' : Walk Unit α} {t t' : Walker α}
    (h : c → Agrees cb maxChoiceTransitions w t) (h' : ¬c → Agrees cb maxChoiceTransitions w' t') :
    Agrees cb maxChoiceTransitions (if c then w else w') (if c then t else t') := by
  split
  · next hc => exact h hc
  · next hc => exact h' hc

theorem recorded {w : Walk Unit α} {t : Walker α} (h : Agrees cb maxChoiceTransitions w t) (e : Event) :
    Agrees cb maxChoiceTransitions w (perform (.record e) >>= fun _ => t) := by
  intro s a s' hreturns
  obtain ⟨own, d, hsteps, htransitions, hlimit, hyields⟩ := h s a s' hreturns
  exact ⟨own, d, hsteps, htransitions, hlimit, hyields.record_bind⟩

/-- A callback is asked. -/
theorem ask (answer : Except PyError α) {t : Walker (Except PyError α)}
    (ht : Yields cb t answer [] 0) :
    Agrees cb maxChoiceTransitions (Powl.ask fun s => (answer, s)) t := by
  intro s a s' h
  cases h
  exact ⟨[], 0, (List.append_nil _).symm, rfl, .inl rfl, ht⟩

theorem forM {w : β → Walk Unit Unit} {t : β → Walker Unit} {l : List β}
    (h : ∀ b ∈ l, Agrees cb maxChoiceTransitions (w b) (t b)) :
    Agrees cb maxChoiceTransitions (l.forM w) (l.forM t) := by
  induction l with
  | nil => exact .pure ()
  | cons b l ih =>
    exact .bind (h b List.mem_cons_self) fun _ => ih fun b hb => h b (List.mem_cons_of_mem _ hb)

theorem loop {step : β → Walk Unit (Option β)} {tstep : β → Walker (Option β)}
    (hstep : ∀ b, Agrees cb maxChoiceTransitions (step b) (tstep b)) : ∀ (fuel : ℕ) (b : β),
    Agrees cb maxChoiceTransitions (Fallible.loop step fuel b) (Threads.loop tstep fuel b)
  | 0, _ => nofun
  | fuel + 1, b => by
    refine .bind (hstep b) fun next => ?_
    cases next with
    | none => exact .pure ()
    | some b' => exact loop hstep fuel b'

theorem atIndex {n : ℕ} {child : Fin n → Walk Unit Unit} {tchild : Fin n → Walker Unit}
    (h : ∀ i, Agrees cb maxChoiceTransitions (child i) (tchild i)) (i : ℕ) :
    Agrees cb maxChoiceTransitions (Powl.atIndex child i) (Threads.atIndex tchild i) := by
  unfold Powl.atIndex Threads.atIndex
  split
  · exact h _
  · exact .throw _ _

theorem shouldRunRepetition (frequency : Frequency) (completed : ℕ) :
    Agrees cb maxChoiceTransitions (Powl.shouldRunRepetition cb.callbacks frequency completed)
      (Threads.shouldRunRepetition cb.repeatEvaluator.isSome frequency completed) := by
  unfold Powl.shouldRunRepetition Threads.shouldRunRepetition
  refine .ite (fun _ => .pure _) fun _ => .ite (fun _ => .pure _) fun _ => ?_
  cases hevaluator : cb.repeatEvaluator with
  | none =>
    simp only [PureCallbacks.callbacks, hevaluator]
    exact .pure _
  | some evaluator =>
    have hanswer : cb.answer (.repeatEvaluator completed) = evaluator completed := by
      rw [PureCallbacks.answer, hevaluator]
      rfl
    simp only [PureCallbacks.callbacks, hevaluator]
    refine .bind (.ask _ ?_) fun answer => .raising _
    rw [← hanswer]
    exact .perform (.repeatEvaluator completed)

theorem repetitions (frequency : Frequency) (path : NodePath) {once : ℕ → Walk Unit Unit}
    {tonce : ℕ → Walker Unit}
    (h : ∀ completed, Agrees cb maxChoiceTransitions (once completed) (tonce completed)) :
    Agrees cb maxChoiceTransitions (Powl.repetitions cb.callbacks fuel frequency once)
      (Threads.repetitions cb.repeatEvaluator.isSome fuel frequency path tonce) := by
  refine loop (fun completed => ?_) fuel 0
  refine .bind (shouldRunRepetition frequency completed) fun again => ?_
  refine .ite (fun _ => .recorded (.bind (h completed) fun _ => ?_) _) fun _ => .pure none
  exact .recorded (.pure _) _

/-! ### Levels -/

/-- What the children of a level yield, each on its own, if they return in a row. -/
theorem level {w : ℕ → Walk Unit Unit} {t : ℕ → Walker Unit} : ∀ {level : List ℕ},
    (∀ i ∈ level, Agrees cb maxChoiceTransitions (w i) (t i)) → ∀ {s s'},
    Returns (level.forM w) s ⟨⟩ s' → ∃ (own : Fin level.length → List ExecutionStep)
      (d : Fin level.length → ℕ), s'.steps = s.steps ++ (List.ofFn own).flatten ∧
        s'.transitions = s.transitions + ∑ i, d i ∧
        (∑ i, d i = 0 ∨ (s'.transitions : ℤ) ≤ maxChoiceTransitions) ∧
        ∀ i, Yields cb (t (level.get i)) () (own i) (d i)
  | [], _, s, s', h => by
    obtain ⟨-, rfl⟩ := Fallible.returns_pure_iff.mp h
    exact ⟨nofun, nofun, by simp, by simp, by simp, nofun⟩
  | i :: level, hchild, s, s', h => by
    obtain ⟨⟨⟩, s₁, hfirst, hrest⟩ := Fallible.returns_bind_iff.mp h
    obtain ⟨own₀, d₀, hsteps₀, htransitions₀, hlimit₀, hyields₀⟩ :=
      hchild i List.mem_cons_self s () s₁ hfirst
    obtain ⟨own, d, hsteps, htransitions, hlimit, hyields⟩ :=
      Agrees.level (fun j hj => hchild j (List.mem_cons_of_mem _ hj)) hrest
    have hsum : ∑ j : Fin (i :: level).length, Fin.cons (α := fun _ => ℕ) d₀ d j = d₀ + ∑ j, d j :=
      Fin.sum_cons d₀ d
    have howns : List.ofFn (Fin.cons own₀ own : Fin (i :: level).length → List ExecutionStep) =
        own₀ :: List.ofFn own := List.ofFn_cons own₀ own
    refine ⟨Fin.cons own₀ own, Fin.cons d₀ d, ?_, by omega, by omega, Fin.cases hyields₀ hyields⟩
    rw [howns, List.flatten_cons, ← List.append_assoc, ← hsteps₀, hsteps]

theorem firstRaised_ok {n : ℕ} (own : Fin n → List ExecutionStep) :
    firstRaised (List.ofFn fun i => (.ok (), own i)) = none := by
  refine List.findSome?_eq_none_iff.mpr fun result hresult => ?_
  obtain ⟨i, rfl⟩ := List.mem_ofFn.mp hresult
  rfl

theorem runLevel {w : ℕ → Walk Unit Unit} {t : ℕ → Walker Unit} {level : List ℕ}
    (h : ∀ i ∈ level, Agrees cb maxChoiceTransitions (w i) (t i)) :
    Agrees cb maxChoiceTransitions (Powl.runLevel 1 w level) (Threads.runLevel maxWorkers t level) := by
  have hserial : Powl.runLevel 1 w level = level.forM w := if_neg fun h => absurd h.1 (lt_irrefl 1)
  rw [hserial]
  unfold Threads.runLevel
  split
  · next hworkers =>
    intro s a s' hreturns
    obtain ⟨own, d, hsteps, htransitions, hlimit, hyields⟩ := Agrees.level h hreturns
    refine ⟨_, _, hsteps, htransitions, hlimit, ?_⟩
    have hpool : Yields cb (pooled (min maxWorkers.toNat level.length) fun i => t (level.get i))
        (List.ofFn fun i => (.ok (), own i)) [] (∑ i, d i) := .pooled (by omega) hyields
    have hflat : (List.ofFn fun i => ((Except.ok () : Except Raised Unit), own i)).flatMap Prod.snd =
        (List.ofFn own).flatten := by
      rw [List.flatMap, List.map_ofFn]
      rfl
    have hflush : Yields cb ((List.ofFn own).flatten.forM Threads.append) ⟨⟩ (List.ofFn own).flatten 0 :=
      .forM_append _
    show Yields cb _ _ ([] ++ (List.ofFn own).flatten) (∑ i, d i + 0)
    refine hpool.bind ?_
    rw [hflat]
    refine hflush.andThen ?_
    rw [firstRaised_ok]
    exact .pure _
  · exact .forM h

theorem walkPartialOrderOnce {n : ℕ} {order : Finset OrderEdge} {child : Fin n → Walk Unit Unit}
    {tchild : Fin n → Walker Unit} (h : ∀ i, Agrees cb maxChoiceTransitions (child i) (tchild i)) :
    Agrees cb maxChoiceTransitions (Powl.walkPartialOrderOnce 1 fuel n order child)
      (Threads.walkPartialOrderOnce maxWorkers fuel n order tchild) := by
  refine loop (fun f => .ite (fun _ => .pure none) fun _ => ?_) fuel _
  exact .bind (runLevel fun i _ => atIndex h i) fun _ => .pure _

/-! ### Choices -/

theorem chooseEdge : ∀ (edges : List ChoiceGraphEdge) (elseEdge : Option ChoiceGraphEdge),
    Agrees cb maxChoiceTransitions (Powl.chooseEdge cb.callbacks edges elseEdge)
      (Threads.chooseEdge edges elseEdge)
  | [], _ => .pure _
  | e :: edges, elseEdge => by
    cases hguard : e.guard with
    | none =>
      simp only [Powl.chooseEdge, Threads.chooseEdge, hguard]
      exact chooseEdge edges _
    | some g =>
      simp only [Powl.chooseEdge, Threads.chooseEdge, hguard]
      refine .bind (.ask _ (.perform (.guardEvaluator g.predicateName g.predicateArgs))) fun answer => ?_
      refine .bind (.raising _) fun holds => ?_
      exact .ite (fun _ => .pure _) fun _ => chooseEdge edges elseEdge

/-- A transition that is taken is one that was left. -/
theorem increment {w : Walk Unit α} {t : Walker α} (h : Agrees cb maxChoiceTransitions w t)
    (e e' : Raised) :
    Agrees cb maxChoiceTransitions (do
        let s ← get
        if maxChoiceTransitions ≤ s.transitions then MonadExcept.throw e
        else
          set { s with transitions := s.transitions + 1 }
          w)
      (do
        if ← perform .tryIncrement then t
        else MonadExcept.throw e') := by
  intro s a s' hreturns
  obtain ⟨_, _, hget, hreturns⟩ := Fallible.returns_bind_iff.mp hreturns
  cases hget
  split at hreturns
  · cases hreturns
  · next hleft =>
    obtain ⟨_, s₁, hset, hreturns⟩ := Fallible.returns_bind_iff.mp hreturns
    cases hset
    obtain ⟨own, d, hsteps, htransitions, hlimit, hyields⟩ := h _ a s' hreturns
    simp only at htransitions
    refine ⟨own, 1 + d, hsteps, by omega, ?_, ?_⟩
    · rcases hlimit with rfl | hlimit
      · exact .inr (by omega)
      · exact .inr hlimit
    · exact (Yields.perform .tryIncrement).bind hyields

theorem walkChoiceGraphOnce {n : ℕ} {body : ChoiceBody} {child : Fin n → Walk Unit Unit}
    {tchild : Fin n → Walker Unit} (h : ∀ i, Agrees cb maxChoiceTransitions (child i) (tchild i)) :
    Agrees cb maxChoiceTransitions
      (Powl.walkChoiceGraphOnce K cb.callbacks maxChoiceTransitions fuel n body child)
      (Threads.walkChoiceGraphOnce K fuel n body tchild) := by
  refine .bind (atIndex h _) fun _ => loop (fun current => ?_) fuel _
  refine .ite (fun _ => .pure none) fun _ => .bind (chooseEdge _ _) fun chosen => ?_
  cases chosen with
  | none => exact .throw _ _
  | some chosen => exact increment (.bind (atIndex h _) fun _ => .pure _) _ _

/-! ### Walks -/

theorem entered {w : Walk Unit Unit} {t : Walker Unit} (h : Agrees cb maxChoiceTransitions w t)
    (path : NodePath) : Agrees cb maxChoiceTransitions w (Threads.entered path t) := by
  refine .recorded (fun s a s' hreturns => ?_) _
  obtain ⟨own, d, hsteps, htransitions, hlimit, hyields⟩ := h s a s' hreturns
  exact ⟨own, d, hsteps, htransitions, hlimit, hyields.andThen (.perform (.record (.walked path)))⟩

theorem walk : ∀ (node : PowlNode) (path : NodePath) (repetitionIndex : ℕ),
    Agrees cb maxChoiceTransitions
      (Powl.walk K cb.callbacks maxChoiceTransitions 1 fuel node repetitionIndex)
      (Threads.walk K cb.repeatEvaluator.isSome maxWorkers fuel node path repetitionIndex)
  | .start, _, _ | .finish, _, _ | .silent, _, _ => .entered (.append _) _
  | .atom a, _, _ => by
    refine .entered (.bind (.ask _ (.perform (.atomInvoker a))) fun answer => ?_) _
    cases answer with
    | ok result => exact .append _
    | error e => exact .bind (.append _) fun _ => .throw _ _
  | .partialOrder n children body, path, _ =>
    .entered (repetitions _ _ fun completed => walkPartialOrderOnce fun i =>
      walk (children i) (path ++ [i.val]) completed) _
  | .choiceGraph n children body, path, _ =>
    .entered (repetitions _ _ fun completed => walkChoiceGraphOnce fun i =>
      walk (children i) (path ++ [i.val]) completed) _

end Agrees

end Agrees

/-- Where `execute` returns a trace without threads, every schedule of it on any number of workers
ends, with that trace. -/
theorem execute_threads (K : PowlCanon) (cb : PureCallbacks) (maxChoiceTransitions : ℤ) (fuel : ℕ)
    (model : PowlNode) (trace : ExecutionTrace) (s' : WalkState Unit)
    (hserial : Returns (Powl.execute K cb.callbacks maxChoiceTransitions 1 fuel model) ⟨(), [], 0⟩
      trace s') (maxWorkers : ℤ) :
    Ends (S := walkSig) (Performs cb.answers maxChoiceTransitions)
      (fun r s => returned r s = .ok trace)
      (.running (execute K cb.repeatEvaluator.isSome maxWorkers fuel model [])) ⟨0, []⟩ := by
  obtain ⟨_, s₁, hvalid, hserial⟩ := Fallible.returns_bind_iff.mp hserial
  obtain ⟨key, s₂, hkey, hserial⟩ := Fallible.returns_bind_iff.mp hserial
  obtain ⟨_, s₃, hwalk, hserial⟩ := Fallible.returns_bind_iff.mp hserial
  cases hserial
  have hreturns : Returns (do
      Powl.raising (refuse (validateModel model))
      let _ ← Powl.raising (K.nodeKey model)
      Powl.walk K cb.callbacks maxChoiceTransitions 1 fuel model 0) ⟨(), [], 0⟩ () s' :=
    Fallible.returns_bind_iff.mpr ⟨_, s₁, hvalid, Fallible.returns_bind_iff.mpr ⟨key, s₂, hkey, hwalk⟩⟩
  have hagrees : Agrees cb maxChoiceTransitions _
      (execute K cb.repeatEvaluator.isSome maxWorkers fuel model) :=
    .bind (.raising (refuse (validateModel model))) fun _ => .bind (.raising (K.nodeKey model)) fun _ =>
      .walk model [] 0
  obtain ⟨own, d, hsteps, htransitions, hlimit, hyields⟩ := hagrees _ _ _ hreturns
  obtain ⟨m, hm⟩ := hyields []
  have hends := (LiveGives.running hm).ends (metered cb maxChoiceTransitions) (s := ⟨0, []⟩)
    (by simp only at htransitions ⊢; omega)
  refine hends.mono fun r s ⟨hr, hs⟩ => ?_
  subst hr
  simp only [returned, List.nil_append, Except.ok.injEq, ExecutionTrace.mk.injEq] at hsteps htransitions hs ⊢
  exact ⟨hsteps.symm, hs.trans htransitions.symm⟩

/-- An edge without a guard. -/
def elseEdge : ChoiceGraphEdge := ⟨0, 1, none⟩

/-- A choice and a silent step, in no order. -/
def twoBranches : PowlNode :=
  .partialOrder 2 ![pairGraph {elseEdge}, .silent] { order := ∅, closure := ∅ }

/-- The one order in which a set of at most that edge is iterated. -/
def elseCanon : PowlCanon where
  canonicalJson v := v.render.toOption.getD ""
  sha256 := id
  listing edges := if elseEdge ∈ edges then [elseEdge] else []

def yesCallbacks : PureCallbacks where
  guardEvaluator _ _ := .ok true
  atomInvoker _ := .ok .null

theorem level_initial_pair : (Frontier.initial 2 ∅).level = [0, 1] := by
  have hset : (Frontier.initial 2 ∅).ready \ (Frontier.initial 2 ∅).completed = ([0, 1] : List ℕ).toFinset := by
    decide +kernel
  rw [Frontier.level, hset]
  exact (List.toFinset_sort (· ≤ ·) (by decide)).mpr (by decide)

/-- Two children in no order are walked one after the other. -/
theorem walkPartialOrderOnce_pair {fuel : ℕ} (child : Fin 2 → Walk Unit Unit) :
    Powl.walkPartialOrderOnce 1 (fuel + 2) 2 ∅ child = child 0 >>= fun _ => child 1 := by
  have hopen : ¬(2 ≤ (Frontier.initial 2 ∅).completed.card ∨ ([0, 1] : List ℕ) = []) := by decide
  have hdone : 2 ≤ ([0, 1].foldl (Frontier.done 2 ∅) (Frontier.initial 2 ∅)).completed.card := by
    decide +kernel
  have hlevel : Powl.runLevel 1 (Powl.atIndex child) [0, 1] = child 0 >>= fun _ => child 1 >>= fun _ => pure () := rfl
  simp only [Powl.walkPartialOrderOnce, Fallible.loop, if_neg hopen, level_initial_pair,
    if_pos (Or.inl hdone), hlevel, bind_assoc, pure_bind, bind_pure_unit]

/-- The choice takes the only transition, whichever thread is first. -/
theorem execute_threads_branches : Ends (S := walkSig) (Performs yesCallbacks.answers 1)
    (fun r s => returned r s = .ok ⟨[{ kind := "Start", repetitionIndex := 0 },
      { kind := "End", repetitionIndex := 0 }, { kind := "Silent", repetitionIndex := 0 }], 1⟩)
    (.running (execute elseCanon false 2 9 twoBranches [])) ⟨0, []⟩ := by
  have hserial : ((Powl.execute elseCanon yesCallbacks.callbacks 1 1 9 twoBranches ⟨(), [], 0⟩).map
      fun p => p.1.toOption) = some (some ⟨[{ kind := "Start", repetitionIndex := 0 },
        { kind := "End", repetitionIndex := 0 }, { kind := "Silent", repetitionIndex := 0 }], 1⟩) := by
    unfold Powl.execute
    simp only [twoBranches, Powl.walk, walkPartialOrderOnce_pair]
    decide +kernel
  obtain ⟨⟨r, s'⟩, hreturns, hr⟩ := Option.map_eq_some_iff.mp hserial
  cases r with
  | error e => cases hr
  | ok trace =>
    obtain rfl := Option.some.inj hr
    exact execute_threads elseCanon yesCallbacks 1 9 twoBranches _ s' hreturns 2

end GymAct.Powl.Threads
