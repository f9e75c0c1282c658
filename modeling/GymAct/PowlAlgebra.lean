import GymAct.Value
import Mathlib.Data.Finset.Image
import Mathlib.Data.Finset.Prod
import Mathlib.Data.Fin.VecNotation
import Mathlib.Data.Fintype.Basic

/-!
# The POWL node algebra

`powl/algebra.py`, `powl/frequency.py` and the names of `powl/refusals.py`. A node holds the
fields its dataclass stores, `closure` and the two `key`s included. A composite owns its
children in a tuple and its edges name them by their index. Indices and repetition counts
are naturals : the constructors refuse negative ones.

`PowlNode.mkPartialOrder` and `PowlNode.mkChoiceGraph` are the constructors, which refuse the
shapes `validate_model` refuses again.
-/

namespace GymAct.Powl

/-- `PowlRefusal`, the members the modelled code raises. -/
inductive PowlRefusal
  | cyclicPartialOrder
  | invalidChoiceArity
  | languageMismatch
  | choiceGraphDisconnected
  | multiBoundaryChoiceGraph
  | depthExceeded
  | danglingReference
  | notTransitivelyReduced
  | invalidPartialOrderArity
  | invalidFrequency
  | boundExhausted
  | ambiguousChoiceGuard
  | noGuardMatched
  | transitionBudgetExhausted
  | atomInvocationFailed
  | childExecutionFailed
  | checkpointNodeMismatch
  deriving DecidableEq, Repr

/-- `MAX_POWL_DEPTH`. -/
def maxPowlDepth : ℕ := 8

/-! ## `frequency.py` -/

/-- How many times a composite may repeat; no `max` is no bound. -/
structure Frequency where
  min : ℕ := 1
  max : Option ℕ := some 1
  min_le : ∀ m ∈ max, min ≤ m
  deriving DecidableEq, Repr

namespace Frequency

/-- `Frequency(min, max)`. -/
def construct (min : ℕ) (max : Option ℕ) : Except PowlRefusal Frequency :=
  if h : ∀ m ∈ max, min ≤ m then .ok ⟨min, max, h⟩ else .error .invalidFrequency

/-- `allows`. -/
def allows (f : Frequency) (n : ℕ) : Bool :=
  if n < f.min then false
  else
    match f.max with
    | none => true
    | some m => n ≤ m

theorem allows_iff {f : Frequency} {n : ℕ} :
    f.allows n = true ↔ f.min ≤ n ∧ ∀ m ∈ f.max, n ≤ m := by
  unfold allows
  cases f.max with
  | none => simp
  | some m => simp

end Frequency

/-- `ONCE`. -/
def once : Frequency := ⟨1, some 1, by simp⟩

/-! ## Edges -/

structure OrderEdge where
  src : ℕ
  dst : ℕ
  deriving DecidableEq, Repr

/-- A named predicate; `key` is the canonical JSON of the other two fields. -/
structure Guard where
  predicateName : String
  predicateArgs : Payload := []
  key : String
  deriving DecidableEq, Repr

structure ChoiceGraphEdge where
  src : ℕ
  dst : ℕ
  guard : Option Guard := none
  deriving DecidableEq, Repr

/-- `_reachability` : one pass of the outer loop for each `k`. -/
def reachability (edges : Finset OrderEdge) (n : ℕ) : ℕ → ℕ → Bool :=
  (List.range n).foldl (fun reach k i j => reach i j || (reach i k && reach k j))
    fun i j => decide (⟨i, j⟩ ∈ edges)

/-- `_check_edges`. -/
def checkEdges (edges : Finset OrderEdge) (n : ℕ) : Except PowlRefusal Unit :=
  if ∀ e ∈ edges, e.src < n ∧ e.dst < n then .ok () else .error .danglingReference

/-- The edges between two of `n` indices that satisfy a predicate. -/
def orderEdgesWhere (n : ℕ) (related : ℕ → ℕ → Bool) : Finset OrderEdge :=
  ((Finset.range n ×ˢ Finset.range n).filter fun e => related e.1 e.2 = true).image
    fun e => ⟨e.1, e.2⟩

/-- `transitive_closure`. -/
def transitiveClosure (edges : Finset OrderEdge) (n : ℕ) : Except PowlRefusal (Finset OrderEdge) := do
  checkEdges edges n
  if ∃ i < n, reachability edges n i i = true then throw .cyclicPartialOrder
  else pure (orderEdgesWhere n (reachability edges n))

/-- `transitive_reduction`. -/
def transitiveReduction (edges : Finset OrderEdge) (n : ℕ) :
    Except PowlRefusal (Finset OrderEdge) := do
  let closure ← transitiveClosure edges n
  pure (closure.filter fun e =>
    ¬∃ k < n, k ≠ e.src ∧ k ≠ e.dst ∧ ⟨e.src, k⟩ ∈ closure ∧ ⟨k, e.dst⟩ ∈ closure)

/-! ## Nodes -/

/-- The class of an activity's effect. -/
inductive Consequence
  | pure
  | read
  | do
  | verify
  deriving DecidableEq, Repr

/-- What a downstream broker would be asked for; anything that is not a plain value is named
by the two texts `_action_identity` reads off it. -/
inductive Action
  | none
  | bool (b : Bool)
  | int (n : ℤ)
  | float (repr : String)
  | str (s : String)
  | named (module name : String)
  deriving DecidableEq, Repr

/-- `_action_identity`. -/
def Action.identity : Action → String
  | .none => ""
  | .bool b => "bool:" ++ if b then "True" else "False"
  | .int n => "int:" ++ toString n
  | .float repr => "float:" ++ repr
  | .str s => "str:" ++ s
  | .named module name => module ++ "." ++ name

/-- A labelled activity; `key` is the canonical JSON of `keyMaterial`. -/
structure Atom where
  label : String
  action : Action := .none
  bindings : Payload := []
  consequence : Consequence := .pure
  key : String
  deriving DecidableEq, Repr

/-- What a partial order stores beside its children. -/
structure OrderBody where
  order : Finset OrderEdge
  closure : Finset OrderEdge
  frequency : Frequency := once
  deriving DecidableEq

/-- What a choice graph stores beside its children. -/
structure ChoiceBody where
  edges : Finset ChoiceGraphEdge
  startIdx : ℕ := 0
  endIdx : ℕ := 1
  frequency : Frequency := once
  deriving DecidableEq

/-- `PowlNode`. -/
inductive PowlNode
  | start
  | finish
  | silent
  | atom (a : Atom)
  | partialOrder (n : ℕ) (children : Fin n → PowlNode) (body : OrderBody)
  | choiceGraph (n : ℕ) (children : Fin n → PowlNode) (body : ChoiceBody)

namespace PowlNode

/-- `_is_leaf`. -/
@[simp]
def isLeaf : PowlNode → Bool
  | .start | .finish | .silent | .atom _ => true
  | .partialOrder .. | .choiceGraph .. => false

/-- `node.children[i]`. -/
def child? : PowlNode → ℕ → Option PowlNode
  | .partialOrder n children _, i | .choiceGraph n children _, i =>
    if h : i < n then some (children ⟨i, h⟩) else none
  | _, _ => none

/-- `node.frequency`. -/
def frequency? : PowlNode → Option Frequency
  | .partialOrder _ _ body => some body.frequency
  | .choiceGraph _ _ body => some body.frequency
  | _ => none

/-- `node_depth`. -/
def depth : PowlNode → ℕ
  | .partialOrder n children _ | .choiceGraph n children _ =>
    1 + (List.finRange n).foldr (fun i d => Nat.max (children i).depth d) 0
  | _ => 1

/-- `PartialOrder(children, order, frequency)`. -/
def mkPartialOrder (n : ℕ) (children : Fin n → PowlNode) (order : Finset OrderEdge)
    (frequency : Frequency := once) : Except PowlRefusal PowlNode :=
  if n < 2 then throw .invalidPartialOrderArity
  else do
    let closure ← transitiveClosure order n
    let reduction ← transitiveReduction closure n
    let node := partialOrder n children { order := reduction, closure, frequency }
    if maxPowlDepth < node.depth then throw .depthExceeded else pure node

/-- `ChoiceGraph(children, edges, start, end, frequency)`. -/
def mkChoiceGraph (n : ℕ) (children : Fin n → PowlNode) (body : ChoiceBody) :
    Except PowlRefusal PowlNode :=
  if n < 2 then throw .invalidChoiceArity
  else if ∃ e ∈ body.edges, ¬(e.src < n ∧ e.dst < n) then throw .danglingReference
  else if ¬(body.startIdx < n ∧ body.endIdx < n) then throw .danglingReference
  else if body.startIdx = body.endIdx then throw .multiBoundaryChoiceGraph
  else if ∃ e ∈ body.edges, e.dst = body.startIdx ∨ e.src = body.endIdx then
    throw .multiBoundaryChoiceGraph
  else
    let node := choiceGraph n children body
    if maxPowlDepth < node.depth then throw .depthExceeded else pure node

@[simp]
theorem child?_partialOrder {n : ℕ} {children : Fin n → PowlNode} {body : OrderBody} {i : ℕ} :
    (partialOrder n children body).child? i = if h : i < n then some (children ⟨i, h⟩) else none :=
  rfl

@[simp]
theorem child?_choiceGraph {n : ℕ} {children : Fin n → PowlNode} {body : ChoiceBody} {i : ℕ} :
    (choiceGraph n children body).child? i = if h : i < n then some (children ⟨i, h⟩) else none :=
  rfl

theorem child?_of_isLeaf : ∀ {node : PowlNode} (_ : node.isLeaf = true) (i : ℕ),
    node.child? i = none
  | .start, _, _ | .finish, _, _ | .silent, _, _ | .atom _, _, _ => rfl

end PowlNode

end GymAct.Powl
