import GymAct.PowlIdentity
import GymAct.PowlValidate

/-!
# The bounded reference executor

`powl/executor.py` : a `Marking` is a structural position in a model. `enabled` is the set of
leaves that may advance, `fire` advances one, `isFinal` asks whether the model is complete and
`classifyStall` why nothing advances. Nothing is chosen here.

A path that leads nowhere, which makes the source raise, is not reached from a validated
model.
-/

namespace GymAct.Powl

/-- The child indices from the root to a node. -/
abbrev NodePath := List ℕ

/-! ## `dict`s keyed by paths -/

/-- A finite map, its keys known. -/
structure PathMap (α : Type) where
  keys : Finset NodePath
  get? : NodePath → Option α
  mem_keys : ∀ p, p ∈ keys ↔ get? p ≠ none

namespace PathMap

variable {α : Type}

@[simp]
theorem mem_keys_iff {m : PathMap α} {p : NodePath} : p ∈ m.keys ↔ m.get? p ≠ none :=
  m.mem_keys p

/-- `{}`. -/
def empty : PathMap α := ⟨∅, fun _ => none, by simp⟩

/-- `m[p] = a`. -/
def set (m : PathMap α) (p : NodePath) (a : α) : PathMap α where
  keys := insert p m.keys
  get? := fun q => if q = p then some a else m.get? q
  mem_keys := by
    intro q
    by_cases h : q = p <;> simp [h]

/-- `{p: a for p, a in m.items() if keep(p)}`. -/
def filter (m : PathMap α) (keep : NodePath → Bool) : PathMap α where
  keys := m.keys.filter (keep · = true)
  get? := fun q => if keep q = true then m.get? q else none
  mem_keys := by
    intro q
    by_cases h : keep q = true <;> simp [h]

@[simp]
theorem get?_empty {p : NodePath} : (empty : PathMap α).get? p = none := rfl

@[simp]
theorem get?_set {m : PathMap α} {p q : NodePath} {a : α} :
    (m.set p a).get? q = if q = p then some a else m.get? q := rfl

@[simp]
theorem get?_filter {m : PathMap α} {keep : NodePath → Bool} {q : NodePath} :
    (m.filter keep).get? q = if keep q = true then m.get? q else none := rfl

end PathMap

/-! ## Bounds and markings -/

/-- `ExecutionBound`. -/
structure ExecutionBound where
  maxActivityFires : ℤ := 1024
  maxNodeVisits : ℤ := 4096
  maxMarkingStates : ℤ := 8192
  deriving DecidableEq, Repr

/-- `DEFAULT_BOUND`. -/
def defaultBound : ExecutionBound := {}

/-- `OccurrenceKey`. -/
structure OccurrenceKey where
  activitySha256 : String
  occurrenceIndex : ℕ
  contextSha256 : String
  deriving DecidableEq, Repr

/-- A structural position in a model. A path without a visit or round count has count 0; the
rounds of a choice graph or partial order are counted as visits of its child `-1`. -/
structure Marking where
  completed : Finset OccurrenceKey
  cursor : PathMap ℕ
  visits : NodePath → ℤ → ℕ
  fires : ℕ
  completedPaths : Finset NodePath
  rounds : PathMap ℕ

/-- `INITIAL_MARKING`. -/
def initialMarking : Marking := ⟨∅, .empty, fun _ _ => 0, 0, ∅, .empty⟩

/-- `node_at`; `none` is `DANGLING_REFERENCE`. -/
def nodeAt : PowlNode → NodePath → Option PowlNode
  | node, [] => some node
  | node, i :: path => (node.child? i).bind fun child => nodeAt child path

namespace Marking

/-- `dict(marking.rounds).get(path, 0)`. -/
def roundsAt (m : Marking) (path : NodePath) : ℕ := (m.rounds.get? path).getD 0

/-- `visits[(path, child)] = visits.get((path, child), 0) + 1`. -/
def visit (m : Marking) (path : NodePath) (child : ℤ) : Marking :=
  { m with visits := fun p c => m.visits p c + if p = path ∧ c = child then 1 else 0 }

/-- `_purged`. -/
def purged (m : Marking) (root : NodePath) (resetRootRounds : Bool := true) : Marking :=
  { m with
    completedPaths := m.completedPaths.filter fun p => ¬root <+: p
    cursor := m.cursor.filter fun p => ¬root <+: p
    rounds := m.rounds.filter fun p => ¬root <+: p ∨ (resetRootRounds = false ∧ p = root) }

/-- `_in_progress`. -/
def inProgress (m : Marking) (path : NodePath) : Bool :=
  decide (∃ p ∈ m.completedPaths, path.length < p.length ∧ path <+: p) ||
    decide (∃ p ∈ m.cursor.keys, path <+: p) ||
    decide (∃ p ∈ m.rounds.keys, path.length < p.length ∧ path <+: p ∧ 0 < m.roundsAt p)

end Marking

/-! ## Completion -/

/-- `_is_complete`. The body of a composite is complete when all children of a partial order
are, or the end of a choice graph is. -/
def isComplete : PowlNode → NodePath → Marking → Bool
  | .partialOrder n children body, path, m =>
    (body.frequency.allows (m.roundsAt path) && !m.inProgress path) ||
      (body.frequency.allows (m.roundsAt path + 1) &&
        (List.finRange n).all fun i => isComplete (children i) (path ++ [i.val]) m)
  | .choiceGraph n children body, path, m =>
    (body.frequency.allows (m.roundsAt path) && !m.inProgress path) ||
      (body.frequency.allows (m.roundsAt path + 1) &&
        match m.cursor.get? path with
        | none => false
        | some cur =>
          cur = body.endIdx &&
            if h : cur < n then isComplete (children ⟨cur, h⟩) (path ++ [cur]) m else false)
  | _, path, m => path ∈ m.completedPaths

/-- `_is_complete(node.children[i], (*path, i), marking)`. -/
def childComplete {n : ℕ} (children : Fin n → PowlNode) (path : NodePath) (m : Marking) (i : ℕ) :
    Bool :=
  if h : i < n then isComplete (children ⟨i, h⟩) (path ++ [i]) m else false

/-- `_body_complete`. -/
def bodyComplete : PowlNode → NodePath → Marking → Bool
  | .partialOrder n children _, path, m =>
    (List.finRange n).all fun i => isComplete (children i) (path ++ [i.val]) m
  | .choiceGraph _ children body, path, m =>
    match m.cursor.get? path with
    | none => false
    | some cur => cur = body.endIdx && childComplete children path m cur
  | _, _, _ => false

/-! ## Enabling -/

/-- Every permitted round is run, or the round counter forbids the next one. -/
def roundsSpent (capped : Bool) (bound : ExecutionBound) (frequency : Frequency) (path : NodePath)
    (m : Marking) : Bool :=
  (frequency.max.any fun max => max ≤ m.roundsAt path) ||
    (0 < m.roundsAt path && !m.inProgress path && capped &&
      bound.maxNodeVisits ≤ (m.visits path (-1) : ℤ))

/-- `_enabled`. -/
def enabledFrom (capped : Bool) (bound : ExecutionBound) :
    PowlNode → NodePath → Marking → Finset NodePath
  | .partialOrder n children body, path, m =>
    if roundsSpent capped bound body.frequency path m then ∅
    else
      Finset.univ.biUnion fun i : Fin n =>
        if isComplete (children i) (path ++ [i.val]) m then ∅
        else if ∀ e ∈ body.closure, e.dst = i → childComplete children path m e.src = true then
          enabledFrom capped bound (children i) (path ++ [i.val]) m
        else ∅
  | .choiceGraph n children body, path, m =>
    if roundsSpent capped bound body.frequency path m then ∅
    else
      -- entering a child starts it afresh, and a successor at its visit cap is left out
      let enter (i : Fin n) : Finset NodePath :=
        if capped && bound.maxNodeVisits ≤ (m.visits path i : ℤ) then ∅
        else enabledFrom capped bound (children i) (path ++ [i.val]) (m.purged (path ++ [i.val]))
      match m.cursor.get? path with
      | none => if h : body.startIdx < n then enter ⟨body.startIdx, h⟩ else ∅
      | some cur =>
        if childComplete children path m cur = false then
          if h : cur < n then enabledFrom capped bound (children ⟨cur, h⟩) (path ++ [cur]) m else ∅
        else if cur = body.endIdx then ∅
        else Finset.univ.biUnion fun i : Fin n => if i.val ∈ body.succ cur then enter i else ∅
  | _, path, m => if path ∈ m.completedPaths then ∅ else {path}

/-- `enabled`. -/
def enabled (model : PowlNode) (m : Marking) (bound : ExecutionBound) : Finset NodePath :=
  enabledFrom true bound model [] m

/-! ## Firing -/

/-- The choice graph at a path enters a child, which starts afresh. -/
def Marking.select (m : Marking) (path : NodePath) (i : ℕ) : Marking :=
  let working := m.purged (path ++ [i])
  { working with cursor := working.cursor.set path i }.visit path i

/-- The composite at a path banks a round, and what is below it starts afresh. -/
def Marking.bank (m : Marking) (path : NodePath) : Marking :=
  let done := m.roundsAt path + 1
  let working := m.purged path false
  { working with rounds := working.rounds.set path done }.visit path (-1)

/-- Entering the child of `path` at a depth, if its parent is a choice graph that is not inside
that child. -/
def enter (model : PowlNode) (path : NodePath) (m : Marking) (depth : ℕ) : Marking :=
  let ancestor := path.take depth
  match nodeAt model ancestor, path[depth]? with
  | some (.choiceGraph _ children _), some i =>
    if m.cursor.get? ancestor ≠ some i ∨ childComplete children ancestor m i = true then
      m.select ancestor i
    else m
  | _, _ => m

/-- Banking a round of the ancestor of `path` at a depth, if its body is complete. -/
def closeRound (model : PowlNode) (path : NodePath) (depth : ℕ) (m : Marking) : Marking :=
  let ancestor := path.take depth
  match nodeAt model ancestor with
  | none => m
  | some node => if bodyComplete node ancestor m then m.bank ancestor else m

/-- `_close_rounds`, deepest first. -/
def closeRounds (model : PowlNode) (path : NodePath) (m : Marking) : Marking :=
  (List.range path.length).foldr (closeRound model path) m

/-- The number of times an activity occurred. -/
def occurrences (m : Marking) (activity : String) : ℕ :=
  (m.completed.filter fun k => k.activitySha256 = activity).card

/-- The marking with the leaf at `path` advanced. -/
def advance (m : Marking) (path : NodePath) (activity contextSha256 : String) : Marking :=
  { m with
    completed := insert ⟨activity, occurrences m activity, contextSha256⟩ m.completed
    completedPaths := insert path m.completedPaths
    fires := m.fires + 1 }

/-- `fire`. -/
def fire (K : PowlCanon) (model : PowlNode) (m : Marking) (path : NodePath) (contextSha256 : String)
    (bound : ExecutionBound) : Except PowlRefusal Marking :=
  if path ∉ enabled model m bound then .error .languageMismatch
  else if bound.maxActivityFires < m.fires + 1 then .error .boundExhausted
  else
    match nodeAt model path with
    | none => .error .danglingReference
    | some node =>
      let working := (List.range path.length).foldl (enter model path) m
      if bound.maxMarkingStates < working.completedPaths.card + 1 then .error .boundExhausted
      else .ok (closeRounds model path (advance working path (K.activityOf node) contextSha256))

/-- `is_final`. -/
def isFinal (model : PowlNode) (m : Marking) : Bool := isComplete model [] m

/-- `DeadlockKind`, as `classify_stall` answers it. -/
inductive DeadlockKind
  | deadlock
  | boundExhausted
  deriving DecidableEq, Repr

/-- `classify_stall`. -/
def classifyStall (model : PowlNode) (m : Marking) (bound : ExecutionBound) : DeadlockKind :=
  if bound.maxActivityFires ≤ m.fires then .boundExhausted
  else if bound.maxMarkingStates ≤ m.completedPaths.card then .boundExhausted
  else if (enabledFrom false bound model [] m).Nonempty then .boundExhausted
  else .deadlock

end GymAct.Powl
