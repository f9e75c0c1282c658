import GymAct.ShortestLabels
import Mathlib.Algebra.Order.Ring.Rat
import Mathlib.Data.Finset.Dedup
import Mathlib.Data.List.AList
import Mathlib.Data.List.ProdSigma
import Mathlib.Data.List.Sort
import Mathlib.Data.String.Basic

/-!
# The independent verifier of transport plans

`explore_kantorovich_independent` checks a transport plan of two finite measures against prices
at both sides, and recovers such prices from the plan alone. `verify` takes the plan and the
prices and tests the raw equations. `construct_dual` solves the equations of the lanes in use
(`derive_tight_components`), which fixes the prices of each connected component up to an offset,
and then the offsets by Bellman and Ford's method (`solve_component_offsets`).

The measures, the ground metric, the plans and the potentials are those of
`explore_kantorovich_duality`, as they are stored. A set of strings is iterated in an order of
its own (`Interpreter.setOrder`).
-/

namespace GymAct.Kantorovich

open ShortestLabels

/-! ## Programs that raise -/

/-- `IndependentVerifierRefusal`. -/
structure IndependentVerifierRefusal where
  code : String
  detail : String
deriving DecidableEq

/-- What a check raises : a refusal, or the `KeyError` of a `dict`. -/
inductive Raised
  | refusal (r : IndependentVerifierRefusal)
  | keyError
deriving DecidableEq

abbrev Checked (α : Type) := Except Raised α

def refuse {α : Type} (code detail : String) : Checked α := .error (.refusal ⟨code, detail⟩)

/-- A refusal unless the condition holds. -/
def require (p : Prop) [Decidable p] (code detail : String) : Checked Unit :=
  if p then .ok () else refuse code detail

abbrev Dict (κ α : Type) := AList fun _ : κ => α

section Dicts

variable {κ α β : Type} [DecidableEq κ]

/-- `d[key]`. -/
def index (d : Dict κ α) (key : κ) : Checked α :=
  match d.lookup key with
  | some a => .ok a
  | none => .error .keyError

/-- `{key: f(key) for key in keys}`. -/
def comprehension (keys : List κ) (f : κ → Checked α) : Checked (Dict κ α) :=
  keys.foldlM (fun d key => do return d.insert key (← f key)) ∅

def values (d : Dict κ α) : List α := d.entries.map Sigma.snd

end Dicts

/-- What a run depends on beside its arguments. -/
structure Interpreter where
  /-- The order in which a set of strings is iterated. -/
  setOrder : List String → List String
  setOrder_perm : ∀ l, (setOrder l).Perm l
  /-- `repr` of a string. -/
  repr : String → String

/-- `sorted` of a set of strings. -/
def sortedSet (l : List String) : List String := l.dedup.insertionSort (· ≤ ·)

/-! ## `explore_kantorovich_duality` -/

structure FiniteMeasure where
  mass : Dict String ℚ

def FiniteMeasure.support (m : FiniteMeasure) : List String := m.mass.keys

structure GroundMetric where
  cost : Dict (String × String) ℚ

/-- `__call__`. -/
def GroundMetric.call (metric : GroundMetric) (x y : String) : ℚ :=
  (metric.cost.lookup (x, y)).getD 0

structure TransportPlan where
  flow : Dict (String × String) ℚ

structure DualPotential where
  u : Dict String ℚ
  v : Dict String ℚ

variable (R : Interpreter) (plan : TransportPlan) (potential : DualPotential)
  (source target : FiniteMeasure) (metric : GroundMetric)

/-! ## `raw_marginals.py` -/

/-- What leaves `x`. -/
def rowSum (x : String) : ℚ := ((plan.flow.entries.filter fun e => e.1.1 = x).map Sigma.snd).sum

/-- What arrives at `y`. -/
def colSum (y : String) : ℚ := ((plan.flow.entries.filter fun e => e.1.2 = y).map Sigma.snd).sum

/-- The text of a list of strings. -/
def reprList (l : List String) : String := "[" ++ ", ".intercalate (l.map R.repr) ++ "]"

def verifyMarginals : Checked Unit := do
  require (∀ value ∈ values plan.flow, 0 ≤ value) "NEGATIVE_FLOW"
    "transport flow must be nonnegative"
  let unknownSources := sortedSet ((plan.flow.keys.map Prod.fst).filter (· ∉ source.support))
  let unknownTargets := sortedSet ((plan.flow.keys.map Prod.snd).filter (· ∉ target.support))
  require (unknownSources = [] ∧ unknownTargets = []) "FLOW_SUPPORT_MISMATCH"
    ("source=" ++ reprList R unknownSources ++ ",target=" ++ reprList R unknownTargets)
  source.mass.entries.forM fun e => require (rowSum plan e.1 = e.2) "SOURCE_MASS_MISMATCH"
    (e.1 ++ ":" ++ toString (rowSum plan e.1) ++ "!=" ++ toString e.2)
  target.mass.entries.forM fun e => require (colSum plan e.1 = e.2) "TARGET_MASS_MISMATCH"
    (e.1 ++ ":" ++ toString (colSum plan e.1) ++ "!=" ++ toString e.2)

/-! ## `raw_feasibility.py` -/

/-- The lanes, as `for x in source.support` over `for y in target.support` reads them. -/
def lanes : List (String × String) := R.setOrder source.support ×ˢ R.setOrder target.support

/-- `metric(x, y) - potential.u[x] - potential.v[y]`. -/
def reducedCost (l : String × String) : Checked ℚ := do
  return metric.call l.1 l.2 - (← index potential.u l.1) - (← index potential.v l.2)

def verifyDualFeasibility : Checked ℚ := do
  require (potential.u.keys.toFinset = source.support.toFinset ∧
      potential.v.keys.toFinset = target.support.toFinset)
    "DUAL_SUPPORT_MISMATCH" "dual potentials must cover both supports exactly"
  (lanes R source target).foldlM (fun maxSlack l => do
    let slack ← reducedCost potential metric l
    require (0 ≤ slack) "DUAL_INFEASIBLE" (l.1 ++ "->" ++ l.2 ++ ":" ++ toString (-slack))
    return max maxSlack slack) 0

/-! ## `raw_complementarity.py`, `raw_dual.py`, `raw_primal.py` -/

def reducedCosts : Checked (Dict (String × String) ℚ) :=
  comprehension (lanes R source target) (reducedCost potential metric)

def verifyComplementarity : Checked ℕ := do
  let slack ← reducedCosts R potential source target metric
  plan.flow.entries.foldlM (fun active e => do
    if 0 < e.2 then
      let s ← index slack e.1
      require (s = 0) "COMPLEMENTARITY_VIOLATION" (e.1.1 ++ "->" ++ e.1.2 ++ ":" ++ toString s)
      return active + 1
    else return active) 0

def primalValue : ℚ := (plan.flow.entries.map fun e => e.2 * metric.call e.1.1 e.1.2).sum

/-- One sum of `dual_value`. -/
def dualTerm (measure : FiniteMeasure) (p : Dict String ℚ) : Checked ℚ :=
  measure.mass.entries.foldlM (fun total e => do return total + e.2 * (← index p e.1)) 0

def dualValue : Checked ℚ := do
  return (← dualTerm source potential.u) + (← dualTerm target potential.v)

/-! ## `raw_verifier.py` -/

def engineId : String := "gymact.kantorovich.independent-equation-verifier/v1"

structure IndependentWitness where
  engine : String
  primal : ℚ
  dual : ℚ
  gap : ℚ
  maxSlack : ℚ
  activeArcs : ℕ

def verify : Checked IndependentWitness := do
  verifyMarginals R plan source target
  let maxSlack ← verifyDualFeasibility R potential source target metric
  let active ← verifyComplementarity R plan potential source target metric
  let primal := primalValue plan metric
  let dual ← dualValue potential source target
  let gap := primal - dual
  require (gap = 0) "STRONG_DUALITY_GAP" (toString primal ++ "!=" ++ toString dual)
  return ⟨engineId, primal, dual, gap, maxSlack, active⟩

/-! ## `tight_components.py` -/

/-- A queue entry : `("s", x)` or `("t", y)`. -/
inductive Node
  | source (x : String)
  | target (y : String)
deriving DecidableEq

/-- How a refusal names a node. -/
def Node.text : Node → String
  | .source x => "source:" ++ x
  | .target y => "target:" ++ y

/-- `metric` between a node and a neighbour of it. -/
def across : Node → Node → ℚ
  | .source x, .target y => metric.call x y
  | .target y, .source x => metric.call x y
  | _, _ => 0

/-- `source_neighbors[x]` and `target_neighbors[y]`. -/
def neighbors : Node → List Node
  | .source x => (plan.flow.entries.filter fun e => 0 < e.2 ∧ e.1.1 = x).map fun e =>
    .target e.1.2
  | .target y => (plan.flow.entries.filter fun e => 0 < e.2 ∧ e.1.2 = y).map fun e =>
    .source e.1.1

/-- The component and the base of each node reached so far : `sc` with `u`, and `tc` with `v`,
which are always written together. -/
abbrev Labels := Node → Option (ℕ × ℚ)

structure TightComponents where
  label : Labels
  count : ℕ

/-- A neighbour of a node of value `value` is met. -/
def visit (component : ℕ) (node : Node) (value : ℚ) (state : Labels × List Node) (b : Node) :
    Checked (Labels × List Node) :=
  let implied := across metric node b - value
  match state.1 b with
  | some (_, known) =>
    if known ≠ implied then refuse "INCONSISTENT_TIGHT_CYCLE" b.text else .ok state
  | none => .ok (Function.update state.1 b (some (component, implied)), state.2 ++ [b])

/-- `while queue`. -/
def drain (component : ℕ) : ℕ → Labels × List Node → Checked (Labels × List Node)
  | 0, state => .ok state
  | _ + 1, (label, []) => .ok (label, [])
  | fuel + 1, (label, node :: queue) => do
    match label node with
    | none => .error .keyError
    | some (_, value) =>
      let state ← (neighbors plan node).foldlM (visit metric component node value) (label, queue)
      drain component fuel state

/-- `for root in pending_sources`. The queue never takes more steps than there are nodes. -/
def spreadFrom (fuel : ℕ) (components : TightComponents) (root : String) :
    Checked TightComponents :=
  if (components.label (.source root)).isSome then .ok components
  else do
    let label := Function.update components.label (.source root) (some (components.count, 0))
    let state ← drain plan metric components.count fuel (label, [.source root])
    return ⟨state.1, components.count + 1⟩

/-- A target that no lane in use reaches is a component of its own. -/
def alone (components : TightComponents) (y : String) : TightComponents :=
  if (components.label (.target y)).isSome then components
  else ⟨Function.update components.label (.target y) (some (components.count, 0)),
    components.count + 1⟩

def deriveTightComponents (sourceSupport targetSupport : List String) :
    Checked TightComponents := do
  plan.flow.entries.forM fun e =>
    if 0 < e.2 → e.1.1 ∈ sourceSupport ∧ e.1.2 ∈ targetSupport then .ok ()
    else .error .keyError
  let components ← (sortedSet sourceSupport).foldlM
    (spreadFrom plan metric (sourceSupport.length + targetSupport.length)) ⟨fun _ => none, 0⟩
  return (sortedSet targetSupport).foldl alone components

/-! ## `component_offsets.py` -/

/-- `source_component[x]` with `base_u[x]`, or `target_component[y]` with `base_v[y]`. -/
def TightComponents.get (components : TightComponents) (node : Node) : Checked (ℕ × ℚ) :=
  match components.label node with
  | some l => .ok l
  | none => .error .keyError

/-- The bound that a lane puts on the offsets, an edge if it is between two components. -/
def offsetEdge (components : TightComponents) (edges : List (Arc ℕ ℚ)) (l : String × String) :
    Checked (List (Arc ℕ ℚ)) := do
  let (a, baseU) ← components.get (.source l.1)
  let (b, baseV) ← components.get (.target l.2)
  let bound := metric.call l.1 l.2 - baseU - baseV
  if a = b then do
    require (0 ≤ bound) "INTRA_COMPONENT_DUAL_INFEASIBLE"
      (l.1 ++ "->" ++ l.2 ++ ":" ++ toString (-bound))
    return edges
  else return edges ++ [⟨b, a, bound⟩]

/-- `distance` and `changed` after one edge. -/
def relaxEdge (state : (ℕ → ℚ) × Bool) (e : Arc ℕ ℚ) : (ℕ → ℚ) × Bool :=
  let candidate := state.1 e.src + e.weight
  if candidate < state.1 e.dst then (Function.update state.1 e.dst candidate, true) else state

/-- At most so many passes over the edges, and none after one that changes nothing. -/
def relaxAll (edges : List (Arc ℕ ℚ)) : ℕ → (ℕ → ℚ) → ℕ → ℚ
  | 0, distance => distance
  | passes + 1, distance =>
    let state := edges.foldl relaxEdge (distance, false)
    if state.2 then relaxAll edges passes state.1 else state.1

/-- Solve `t_a - t_b <= c_xy - base_u[x] - base_v[y]` for the components. -/
def solveComponentOffsets (components : TightComponents) : Checked (ℕ → ℚ) := do
  let edges ← (lanes R source target).foldlM (offsetEdge metric components) []
  let distance := relaxAll edges (components.count - 1) fun _ => 0
  edges.forM fun e => require (distance e.dst ≤ distance e.src + e.weight)
    "DUAL_OFFSET_NEGATIVE_CYCLE" (toString e.src ++ "->" ++ toString e.dst)
  return distance

/-! ## `primal_to_dual.py` -/

/-- Every value with `shift` added. -/
def shiftValues (p : Dict String ℚ) (shift : ℚ) : Dict String ℚ :=
  ⟨p.entries.map fun e => ⟨e.1, e.2 + shift⟩, by
    have hkeys : (p.entries.map fun e => (⟨e.1, e.2 + shift⟩ : (_ : String) × ℚ)).keys =
        p.entries.keys := by simp [List.keys]
    rw [List.NodupKeys, hkeys]
    exact p.nodupKeys⟩

/-- The value of the least source is zero. -/
def anchored (p : DualPotential) : Checked DualPotential :=
  match p.u.keys.min? with
  | none => .ok p
  | some anchor => do
    let gauge ← index p.u anchor
    return ⟨shiftValues p.u (-gauge), shiftValues p.v gauge⟩

def constructDual : Checked DualPotential := do
  verifyMarginals R plan source target
  let components ← deriveTightComponents plan metric source.support target.support
  let offsets ← solveComponentOffsets R source target metric components
  let u ← comprehension (R.setOrder source.support) fun x => do
    let (a, base) ← components.get (.source x)
    return base + offsets a
  let v ← comprehension (R.setOrder target.support) fun y => do
    let (b, base) ← components.get (.target y)
    return base - offsets b
  let potential ← anchored ⟨u, v⟩
  let _ ← verifyDualFeasibility R potential source target metric
  return potential

end GymAct.Kantorovich
