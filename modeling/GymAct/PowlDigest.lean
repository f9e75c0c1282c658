import GymAct.PowlIdentity
import GymAct.PowlValidate
import Mathlib.Data.Prod.Lex
import Mathlib.Data.String.Basic

/-!
# Node identities and model digests

`powl/identity.py` and `powl/normalize.py`, with the fingerprint of `powl/guard_executor.py`.
The edges of a choice graph are sorted as lists `[src, dst, key]`, the key of an unguarded edge
being `None`, which no text compares with.

`nodeStructure_isOk_iff`, `nodeFingerprint_isOk_iff` : that raises exactly when the model splits
a pair of children, one edge between them guarded and another not.
-/

namespace GymAct.Powl

open Fallible

/-- What is raised : a `PowlError`, or an error the package has no refusal for. -/
inductive Raised
  | refusal (r : PowlRefusal)
  | error (e : PyError)
  deriving DecidableEq, Repr

/-- A `PowlError`. -/
def Raised.Typed : Raised → Prop
  | .refusal _ => True
  | .error _ => False

/-- What raises refusals raises nothing else. -/
def refuse {α : Type} (x : Except PowlRefusal α) : Except Raised α := x.mapError .refusal

/-! ## Sorted edges -/

/-- `[e.src, e.dst, e.guard.key if e.guard is not None else None]`. -/
structure EdgeRow where
  src : ℕ
  dst : ℕ
  key : Option String
  deriving DecidableEq, Repr

def ChoiceGraphEdge.row (e : ChoiceGraphEdge) : EdgeRow := ⟨e.src, e.dst, e.guard.map Guard.key⟩

def EdgeRow.value (r : EdgeRow) : Value :=
  .list [.int r.src, .int r.dst, match r.key with | none => .null | some k => .str k]

/-- `<` between texts and `None`. -/
def keyLt : Option String → Option String → Except Raised Bool
  | some k, some k' => .ok (k < k')
  | none, none => .ok false
  | none, some _ =>
    .error (.error ⟨"TypeError", "'<' not supported between instances of 'NoneType' and 'str'"⟩)
  | some _, none =>
    .error (.error ⟨"TypeError", "'<' not supported between instances of 'str' and 'NoneType'"⟩)

/-- `<` between lists : the first items that differ decide. -/
def EdgeRow.lt (a b : EdgeRow) : Except Raised Bool :=
  if a.src ≠ b.src then .ok (a.src < b.src)
  else if a.dst ≠ b.dst then .ok (a.dst < b.dst)
  else keyLt a.key b.key

/-- The pair of children an edge joins. -/
def EdgeRow.ends (r : EdgeRow) : ℕ ×ₗ ℕ := toLex (r.src, r.dst)

theorem ends_eq_iff {a b : EdgeRow} : a.ends = b.ends ↔ a.src = b.src ∧ a.dst = b.dst :=
  Prod.mk.injEq .. ▸ Iff.rfl

theorem keyLt_isOk {k k' : Option String} :
    (∃ r, keyLt k k' = .ok r) ↔ k.isSome = k'.isSome := by
  cases k <;> cases k' <;> simp [keyLt]

/-- Rows with different ends compare by their ends. -/
theorem EdgeRow.lt_of_ends_ne {a b : EdgeRow} (h : a.ends ≠ b.ends) :
    a.lt b = .ok (a.ends < b.ends) := by
  have hlt : a.ends < b.ends ↔ a.src < b.src ∨ a.src = b.src ∧ a.dst < b.dst := Prod.Lex.lt_iff
  unfold EdgeRow.lt
  split
  · next hsrc => simp [hlt, hsrc]
  · next hsrc =>
    rw [not_not] at hsrc
    have hdst : a.dst ≠ b.dst := fun hdst => h (ends_eq_iff.mpr ⟨hsrc, hdst⟩)
    simp [hlt, hsrc, hdst]

theorem EdgeRow.lt_of_ends_eq {a b : EdgeRow} (h : a.ends = b.ends) : a.lt b = keyLt a.key b.key := by
  obtain ⟨hsrc, hdst⟩ := ends_eq_iff.mp h
  simp [EdgeRow.lt, hsrc, hdst]

theorem compares_row : Compares EdgeRow.lt EdgeRow.ends fun r => r.key.isSome where
  isOk a b := by
    by_cases h : a.ends = b.ends
    · rw [EdgeRow.lt_of_ends_eq h, keyLt_isOk]
      exact ⟨fun hkind _ => hkind, fun hkind => hkind h⟩
    · exact ⟨fun _ h' => absurd h' h, fun _ => ⟨_, EdgeRow.lt_of_ends_ne h⟩⟩
  le_of_true {a b} hlt := by
    by_cases h : a.ends = b.ends
    · exact h.le
    · rw [EdgeRow.lt_of_ends_ne h, Except.ok.injEq, decide_eq_true_eq] at hlt
      exact hlt.le
  le_of_false {a b} hlt := by
    by_cases h : a.ends = b.ends
    · exact h.ge
    · rw [EdgeRow.lt_of_ends_ne h, Except.ok.injEq, decide_eq_false_iff_not, not_lt] at hlt
      exact hlt

/-! ## Structures -/

/-- `_freq`. -/
def Frequency.value (f : Frequency) : Value :=
  .dict [("min", .int f.min), ("max", match f.max with | none => .null | some m => .int m)]

/-- `sorted([e.src, e.dst] for e in node.order)`. -/
def orderValue (order : Finset OrderEdge) : Value :=
  .list (((order.image fun e => [e.src, e.dst]).sort (· ≤ ·)).map fun row =>
    .list (row.map fun (i : ℕ) => .int i))

namespace PowlCanon

variable (K : PowlCanon)

/-- The sorted rows of the edges of a choice graph. -/
def edgesValue (edges : Finset ChoiceGraphEdge) : Except Raised Value := do
  let rows ← sortedBy EdgeRow.lt ((K.listing edges).map ChoiceGraphEdge.row)
  return .list (rows.map EdgeRow.value)

/-- `node_structure`. -/
def nodeStructure : PowlNode → Except Raised Value
  | .partialOrder _ children body => do
    let ids ← collect fun i => return K.idOf (← nodeStructure (children i))
    return .dict [("kind", .str "PartialOrder"), ("children", .list (List.ofFn fun i => .str (ids i))),
      ("order", orderValue body.order), ("frequency", body.frequency.value)]
  | .choiceGraph _ children body => do
    let ids ← collect fun i => return K.idOf (← nodeStructure (children i))
    let edges ← K.edgesValue body.edges
    return .dict [("kind", .str "ChoiceGraph"), ("children", .list (List.ofFn fun i => .str (ids i))),
      ("edges", edges), ("start", .int body.startIdx), ("end", .int body.endIdx),
      ("frequency", body.frequency.value)]
  | leaf => .ok (K.leafStructure leaf)

/-- `node_id`. -/
def nodeId (node : PowlNode) : Except Raised String := return K.idOf (← K.nodeStructure node)

/-- `canonical_form`. -/
def canonicalForm : PowlNode → Except Raised PowlNode
  | .partialOrder n children body => do
    let kids ← collect fun i => canonicalForm (children i)
    let ids ← collect fun i => K.nodeId (kids i)
    -- by identity, ties by original position
    let perm := (List.finRange n).insertionSort fun i j => toLex (ids i, i) ≤ toLex (ids j, j)
    let reduced ← refuse (transitiveReduction body.order n)
    let newIndex (old : ℕ) := (perm.map Fin.val).idxOf old
    let edges := reduced.image fun e => (⟨newIndex e.src, newIndex e.dst⟩ : OrderEdge)
    refuse (PowlNode.mkPartialOrder n (fun i => kids (perm[i.val]?.getD i)) edges body.frequency)
  | .choiceGraph n children body => do
    let kids ← collect fun i => canonicalForm (children i)
    refuse (PowlNode.mkChoiceGraph n kids body)
  | leaf => .ok leaf

/-- `model_digest`. -/
def modelDigest (node : PowlNode) : Except Raised String := do
  K.nodeId (← K.canonicalForm node)

/-- `_node_fingerprint`. -/
def nodeFingerprint : PowlNode → Except Raised Value
  | .start => .ok (.dict [("kind", .str "Start")])
  | .finish => .ok (.dict [("kind", .str "End")])
  | .silent => .ok (.dict [("kind", .str "Silent")])
  | .atom a => .ok (.dict [("kind", .str "Atom"), ("key", .str a.key)])
  | .partialOrder _ children body => do
    let kids ← collect fun i => nodeFingerprint (children i)
    return .dict [("kind", .str "PartialOrder"), ("children", .list (List.ofFn kids)),
      ("order", orderValue body.order),
      ("frequency", .list [.int body.frequency.min,
        match body.frequency.max with | none => .null | some m => .int m])]
  | .choiceGraph _ children body => do
    let kids ← collect fun i => nodeFingerprint (children i)
    let edges ← K.edgesValue body.edges
    return .dict [("kind", .str "ChoiceGraph"), ("children", .list (List.ofFn kids)),
      ("edges", edges), ("start", .int body.startIdx), ("end", .int body.endIdx),
      ("frequency", .list [.int body.frequency.min,
        match body.frequency.max with | none => .null | some m => .int m])]

/-- `_node_key`. -/
def nodeKey (node : PowlNode) : Except Raised String :=
  return K.canonicalJson (← K.nodeFingerprint node)

end PowlCanon

/-! ## Split pairs -/

/-- No two edges join the same pair of children, one of them guarded and the other not. -/
def ChoiceBody.Unsplit (body : ChoiceBody) : Prop :=
  ∀ e ∈ body.edges, ∀ e' ∈ body.edges, e.src = e'.src → e.dst = e'.dst →
    e.guard.isSome = e'.guard.isSome

/-- No choice graph of a node splits a pair of children. -/
def PowlNode.Unsplit : PowlNode → Prop
  | .partialOrder _ children _ => ∀ i, (children i).Unsplit
  | .choiceGraph _ children body => body.Unsplit ∧ ∀ i, (children i).Unsplit
  | _ => True

/-- The iteration of a set of edges visits its elements. -/
def PowlCanon.Lists (K : PowlCanon) : Prop := ∀ edges e, e ∈ K.listing edges ↔ e ∈ edges

section Identity

variable {K : PowlCanon}

theorem edgesValue_isOk_iff (hK : K.Lists) {edges : Finset ChoiceGraphEdge} :
    (∃ v, K.edgesValue edges = .ok v) ↔ ∀ e ∈ edges, ∀ e' ∈ edges, e.src = e'.src → e.dst = e'.dst →
      e.guard.isSome = e'.guard.isSome := by
  rw [PowlCanon.edgesValue, exists_bind_pure_iff, compares_row.sortedBy_eq_ok_iff]
  simp only [Uniform, List.forall_mem_map, hK edges _, ends_eq_iff, ChoiceGraphEdge.row,
    Option.isSome_map, and_imp]

theorem nodeStructure_isOk_iff (hK : K.Lists) :
    ∀ {node : PowlNode}, (∃ v, K.nodeStructure node = .ok v) ↔ node.Unsplit
  | .start | .finish | .silent | .atom _ => ⟨fun _ => trivial, fun _ => ⟨_, rfl⟩⟩
  | .partialOrder n children body => by
    rw [PowlCanon.nodeStructure, exists_bind_pure_iff, exists_collect_iff]
    exact forall_congr' fun i => exists_bind_pure_iff.trans (nodeStructure_isOk_iff hK)
  | .choiceGraph n children body => by
    rw [PowlCanon.nodeStructure, exists_bind_bind_pure_iff, exists_collect_iff,
      edgesValue_isOk_iff hK, and_comm]
    exact and_congr Iff.rfl (forall_congr' fun i =>
      exists_bind_pure_iff.trans (nodeStructure_isOk_iff hK))

theorem nodeFingerprint_isOk_iff (hK : K.Lists) :
    ∀ {node : PowlNode}, (∃ v, K.nodeFingerprint node = .ok v) ↔ node.Unsplit
  | .start | .finish | .silent | .atom _ => ⟨fun _ => trivial, fun _ => ⟨_, rfl⟩⟩
  | .partialOrder n children body => by
    rw [PowlCanon.nodeFingerprint, exists_bind_pure_iff, exists_collect_iff]
    exact forall_congr' fun i => nodeFingerprint_isOk_iff hK
  | .choiceGraph n children body => by
    rw [PowlCanon.nodeFingerprint, exists_bind_bind_pure_iff, exists_collect_iff,
      edgesValue_isOk_iff hK, and_comm]
    exact and_congr Iff.rfl (forall_congr' fun i => nodeFingerprint_isOk_iff hK)

/-- The only errors are those of a comparison with `None`. -/
theorem edgesValue_untyped (edges : Finset ChoiceGraphEdge) :
    Meets (fun _ => True) (fun e => ¬e.Typed) (K.edgesValue edges) := by
  refine (Meets.sortedBy (fun a b => ?_) _).bind fun _ _ => trivial
  unfold EdgeRow.lt
  split
  · trivial
  split
  · trivial
  · cases a.key <;> cases b.key <;> simp [keyLt, Meets, Raised.Typed]

theorem nodeStructure_untyped :
    ∀ node : PowlNode, Meets (fun _ => True) (fun e => ¬e.Typed) (K.nodeStructure node)
  | .start | .finish | .silent | .atom _ => trivial
  | .partialOrder _ children _ =>
    Meets.bind (.collect fun i => (nodeStructure_untyped (children i)).map) fun _ _ => trivial
  | .choiceGraph _ children body =>
    Meets.bind (.collect fun i => (nodeStructure_untyped (children i)).map) fun _ _ =>
      (edgesValue_untyped body.edges).map

theorem nodeFingerprint_untyped :
    ∀ node : PowlNode, Meets (fun _ => True) (fun e => ¬e.Typed) (K.nodeFingerprint node)
  | .start | .finish | .silent | .atom _ => trivial
  | .partialOrder _ children _ =>
    Meets.bind (.collect fun i => nodeFingerprint_untyped (children i)) fun _ _ => trivial
  | .choiceGraph _ children body =>
    Meets.bind (.collect fun i => nodeFingerprint_untyped (children i)) fun _ _ =>
      (edgesValue_untyped body.edges).map

theorem nodeId_isOk_iff (hK : K.Lists) {node : PowlNode} :
    (∃ id, K.nodeId node = .ok id) ↔ node.Unsplit :=
  exists_bind_pure_iff.trans (nodeStructure_isOk_iff hK)

theorem nodeId_meets (hK : K.Lists) {node : PowlNode} (h : node.Unsplit) :
    Meets (fun _ => True) Raised.Typed (K.nodeId node) := by
  obtain ⟨id, hid⟩ := (nodeId_isOk_iff hK).mpr h
  rw [hid]
  trivial

theorem nodeKey_isOk_iff (hK : K.Lists) {node : PowlNode} :
    (∃ key, K.nodeKey node = .ok key) ↔ node.Unsplit :=
  exists_bind_pure_iff.trans (nodeFingerprint_isOk_iff hK)

/-- What is not there raised an error that is no refusal. -/
theorem exists_untyped {α : Type} {x : Except Raised α} (hnone : ¬∃ a, x = .ok a)
    (hx : Meets (fun _ => True) (fun e => ¬e.Typed) x) : ∃ e, x = .error (.error e) := by
  rcases x with (r | e) | a
  · exact absurd trivial hx
  · exact ⟨e, rfl⟩
  · exact absurd ⟨a, rfl⟩ hnone

theorem nodeId_raises (hK : K.Lists) {node : PowlNode} (h : ¬node.Unsplit) :
    ∃ e, K.nodeId node = .error (.error e) :=
  exists_untyped (mt (nodeId_isOk_iff hK).mp h) (nodeStructure_untyped node).map

theorem nodeKey_raises (hK : K.Lists) {node : PowlNode} (h : ¬node.Unsplit) :
    ∃ e, K.nodeKey node = .error (.error e) :=
  exists_untyped (mt (nodeKey_isOk_iff hK).mp h) (nodeFingerprint_untyped node).map

/-! ## The canonical form -/

theorem mkChoiceGraph_eq_ok {n : ℕ} {children : Fin n → PowlNode} {body : ChoiceBody}
    {node : PowlNode} (h : PowlNode.mkChoiceGraph n children body = .ok node) :
    node = .choiceGraph n children body := by
  simp only [PowlNode.mkChoiceGraph, ite_throw_eq_ok] at h
  exact (Except.ok.inj h.2.2.2.2.2.2).symm

theorem mkPartialOrder_eq_ok {n : ℕ} {children : Fin n → PowlNode} {order : Finset OrderEdge}
    {frequency : Frequency} {node : PowlNode}
    (h : PowlNode.mkPartialOrder n children order frequency = .ok node) :
    ∃ body, node = .partialOrder n children body := by
  simp only [PowlNode.mkPartialOrder, ite_throw_eq_ok, bind_eq_ok] at h
  obtain ⟨-, closure, -, reduction, -, -, h⟩ := h
  exact ⟨_, (Except.ok.inj h).symm⟩

theorem refuse_meets {α : Type} {x : Except PowlRefusal α} {post : α → Prop}
    (h : ∀ a, x = .ok a → post a) : Meets post Raised.Typed (refuse x) := by
  cases x with
  | error r => trivial
  | ok a => exact h a rfl

/-- The canonical form of a model that splits no pair raises refusals only, and splits none. -/
theorem canonicalForm_spec (hK : K.Lists) : ∀ {node : PowlNode}, node.Unsplit →
    Meets PowlNode.Unsplit Raised.Typed (K.canonicalForm node)
  | .start, h | .finish, h | .silent, h | .atom _, h => h
  | .partialOrder n children body, h => by
    refine Meets.bind (.collect fun i => canonicalForm_spec hK (h i)) fun kids hkids => ?_
    refine Meets.bind (.collect fun i => nodeId_meets hK (hkids i)) fun ids _ => ?_
    refine Meets.bind (refuse_meets fun _ _ => trivial) fun reduced _ => ?_
    refine refuse_meets fun node hnode => ?_
    obtain ⟨body', rfl⟩ := mkPartialOrder_eq_ok hnode
    exact fun i => hkids _
  | .choiceGraph n children body, h => by
    refine Meets.bind (.collect fun i => canonicalForm_spec hK (h.2 i)) fun kids hkids => ?_
    refine refuse_meets fun node hnode => ?_
    rw [mkChoiceGraph_eq_ok hnode]
    exact ⟨h.1, hkids⟩

/-- The digest of a model that splits no pair raises refusals only. -/
theorem modelDigest_meets (hK : K.Lists) {node : PowlNode} (h : node.Unsplit) :
    Meets (fun _ => True) Raised.Typed (K.modelDigest node) :=
  (canonicalForm_spec hK h).bind fun _ hnode => nodeId_meets hK hnode

end Identity

end GymAct.Powl
