import GymAct.PowlDigest
import GymAct.PowlOrder
import GymAct.SortedKeys
import Mathlib.Data.List.Sigma
import Std.Data.String.ToInt

/-!
# The Turtle bridge

`powl/turtle_bridge.py` over `powl/_turtle.py` : a `PowlModel` is a flat, IRI-addressed graph
of activity leaves, and `powlModelToNode` and `powlNodeToModel` go between it and the algebra.
`int` and `str` of the language are the parameter `PyText`.

`bridge_round_trip` : every node in scope is read back with its labels and its order, and
unchanged when its actions, keys and values are what the Turtle side has words for.
-/

namespace GymAct.Powl

open DistinctKeys Fallible

/-! ## `_turtle.py` -/

structure ParameterBinding where
  iri : String
  bindingIndex : ℤ
  parameter : String
  boundObject : String
  deriving DecidableEq, Repr

structure ActivityLeaf where
  iri : String
  activityLabel : String
  implementsAction : String
  planOrdinal : ℤ
  bindsParameter : List String := []
  deriving DecidableEq, Repr

structure ChildBinding where
  iri : String
  childIndex : ℤ
  childModel : String
  precedes : List String := []
  deriving DecidableEq, Repr

structure PowlModel where
  iri : String
  types : List String
  derivedFrom : List String
  wasDerivedFrom : List String
  hasChild : List String
  projection : Option String := none
  plannerRun : Option String := none
  domainDigest : Option String := none
  problemDigest : Option String := none
  activityCount : Option ℤ := none
  children : List (String × ChildBinding) := []
  leaves : List (String × ActivityLeaf) := []
  bindings : List (String × ParameterBinding) := []
  deriving DecidableEq, Repr

/-- `ordered_children`. -/
def PowlModel.orderedChildren (m : PowlModel) : List ChildBinding :=
  (m.children.map Prod.snd).insertionSort fun c c' => c.childIndex ≤ c'.childIndex

/-- The namespace `POWL2`. -/
def powl2 : String := "https://truex.io/ontology/powl2#"

/-- `int` of a text and `str` of a value. -/
structure PyText where
  int : String → Option ℤ
  str : Value → String
  int_toString : ∀ n : ℤ, int (toString n) = some n
  str_str : ∀ s, str (.str s) = s

/-- A `BridgeError` with its message, or what the algebra refuses. -/
inductive BridgeError
  | bridge (message : String)
  | powl (refusal : PowlRefusal)
  deriving DecidableEq, Repr

/-- `bindings[key] = value`. -/
def setItem (bindings : Payload) (key : String) (value : Value) : Payload :=
  if key ∈ bindings.map Prod.fst then
    bindings.map fun item => if item.1 = key then (key, value) else item
  else bindings ++ [(key, value)]

section Bridge

variable (K : PowlCanon) (P : PyText)

/-- `Atom(label, action, bindings, consequence)`. -/
def PowlCanon.atom (label : String) (action : Action) (bindings : Payload)
    (consequence : Consequence := .pure) : Atom :=
  let fields : Atom := { label, action, bindings, consequence, key := "" }
  { fields with key := K.canonicalJson fields.keyMaterial }

/-! ## From a model to a node -/

/-- `index_of_child_iri.get(iri)` : the last position of the IRI. -/
def indexOfChildIri (ordered : List ChildBinding) (iri : String) : Option ℕ :=
  (ordered.zipIdx.reverse.find? fun c => c.1.iri = iri).map Prod.snd

/-- The bindings of a leaf. -/
def bindingsOf (m : PowlModel) (leaf : ActivityLeaf) : Except BridgeError Payload :=
  leaf.bindsParameter.foldlM (fun bindings bindingIri =>
    match m.bindings.lookup bindingIri with
    | none => .error (.bridge ("DANGLING_BINDING: <" ++ leaf.iri ++ "> mfwp:bindsParameter <" ++
        bindingIri ++ "> has no matching mfwp:ParameterBinding"))
    | some binding => .ok (setItem bindings (toString binding.bindingIndex) (.str binding.boundObject)))
    []

/-- The atom of a child. -/
def atomOf (m : PowlModel) (child : ChildBinding) : Except BridgeError Atom :=
  match m.leaves.lookup child.childModel with
  | none => .error (.bridge ("DANGLING_CHILD_MODEL: <" ++ child.iri ++ "> powl2:childModel <" ++
      child.childModel ++ "> has no matching powl2:ActivityLeaf"))
  | some leaf => do
    let bindings ← bindingsOf m leaf
    return K.atom leaf.activityLabel (.str leaf.implementsAction) bindings

/-- The edges of a child. -/
def edgesFrom (ordered : List ChildBinding) (edges : Finset OrderEdge) (child : ChildBinding) :
    Except BridgeError (Finset OrderEdge) :=
  child.precedes.foldlM (fun edges targetIri =>
    match indexOfChildIri ordered targetIri with
    | none => .error (.bridge ("DANGLING_PRECEDES: <" ++ child.iri ++ "> powl2:precedes <" ++
        targetIri ++ "> is not one of this model's child bindings"))
    | some dst => .ok (insert ⟨(indexOfChildIri ordered child.iri).getD 0, dst⟩ edges)) edges

/-- The node of atoms : a bare one, or a partial order. -/
def nodeOf (atoms : List Atom) (edges : Finset OrderEdge) : Except BridgeError PowlNode :=
  match atoms with
  | [a] => .ok (.atom a)
  | atoms =>
    (PowlNode.mkPartialOrder atoms.length (fun i => .atom (atoms.get i)) edges).mapError .powl

/-- `powl_model_to_node`. -/
def powlModelToNode (m : PowlModel) : Except BridgeError PowlNode := do
  let ordered := m.orderedChildren
  if ordered = [] then
    throw (.bridge "EMPTY_MODEL: powl2:Model has zero powl2:ChildBinding children")
  else
    let atoms ← ordered.mapM (atomOf K m)
    let edges ← ordered.foldlM (edgesFrom ordered) ∅
    nodeOf atoms edges

/-! ## From a node to a model -/

/-- `f"{n:020d}"`. -/
def zeroPadded (n : ℤ) : String :=
  let sign := if n < 0 then "-" else ""
  let digits := toString n.natAbs
  sign ++ String.ofList (List.replicate (20 - sign.length - digits.length) '0') ++ digits

/-- `_binding_sort_key`. -/
def bindingSortKey (key : String) : ℕ ×ₗ String :=
  match P.int key with
  | some n => toLex (0, zeroPadded n)
  | none => toLex (1, key)

/-- `_binding_index`. -/
def bindingIndex (key : String) (fallbackPosition : ℕ) : ℤ :=
  (P.int key).getD fallbackPosition

variable (baseIri : String)

def stepIri (index : ℕ) : String := baseIri ++ "/plan" ++ "/step/" ++ toString index

def slotIri (index : ℕ) : String := baseIri ++ "/plan" ++ "/binding-slot/" ++ toString index

def bindingIri (index position : ℕ) : String :=
  stepIri baseIri index ++ "/binding/" ++ toString position

/-- The bindings of an atom, in the order of their keys and numbered. -/
def sortedBindings (a : Atom) : List ((String × Value) × ℕ) :=
  (a.bindings.insertionSort fun x y => bindingSortKey P x.1 ≤ bindingSortKey P y.1).zipIdx

/-- What stands for the action of an atom. -/
def implementsAction (a : Atom) : String :=
  match a.action with
  | .str s => if s = "" then baseIri ++ "/" ++ a.label else s
  | _ => baseIri ++ "/" ++ a.label

/-- The bindings, the leaf and the slot of an atom. -/
def parameterBindings (a : Atom) (index : ℕ) : List (String × ParameterBinding) :=
  (sortedBindings P a).map fun b => (bindingIri baseIri index b.2, {
    iri := bindingIri baseIri index b.2
    bindingIndex := bindingIndex P b.1.1 b.2
    parameter := baseIri ++ "/" ++ a.label ++ "-p" ++ toString b.2
    boundObject := P.str b.1.2 })

def activityLeaf (a : Atom) (index : ℕ) : ActivityLeaf where
  iri := stepIri baseIri index
  activityLabel := a.label
  implementsAction := implementsAction baseIri a
  planOrdinal := index
  bindsParameter := (parameterBindings P baseIri a index).map Prod.fst

def childBinding (precedes : ℕ → List ℕ) (index : ℕ) : ChildBinding where
  iri := slotIri baseIri index
  childIndex := index
  childModel := stepIri baseIri index
  precedes := (precedes index).map (slotIri baseIri)

/-- An atom, if a node is one. -/
def PowlNode.atom? : PowlNode → Option Atom
  | .atom a => some a
  | _ => none

/-- `type(node).__name__`. -/
def PowlNode.kind : PowlNode → String
  | .start => "Start"
  | .finish => "End"
  | .silent => "Silent"
  | .atom _ => "Atom"
  | .partialOrder .. => "PartialOrder"
  | .choiceGraph .. => "ChoiceGraph"

/-- The atoms of a node in scope, and `precedes_by_index`. -/
def atomsOf (node : PowlNode) : Except BridgeError (List Atom × (ℕ → List ℕ)) :=
  let unsupported : BridgeError := .bridge ("UNSUPPORTED_NODE_SHAPE: " ++ node.kind ++
    " has no POWL2 Turtle vocabulary in this repo's decoder/emitter (fabric/powl.py models " ++
    "only a flat total order of powl2:ActivityLeaf steps)")
  match node with
  | .atom a => .ok ([a], fun _ => [])
  | .partialOrder _ children body =>
    match (List.ofFn children).mapM PowlNode.atom? with
    | none => .error unsupported
    | some atoms =>
      .ok (atoms, fun i =>
        ((body.closure.filter fun e => e.src = i).image OrderEdge.dst).sort (· ≤ ·))
  | _ => .error unsupported

/-- The model of atoms and what each of them precedes. -/
def modelOf (plannerRun : String) (atoms : List Atom) (precedes : ℕ → List ℕ) : PowlModel where
  iri := baseIri ++ "/plan"
  types := [powl2 ++ "Model", powl2 ++ "PartialOrder"]
  derivedFrom := [baseIri]
  wasDerivedFrom := [baseIri ++ "/domain"]
  hasChild := atoms.zipIdx.map fun a => slotIri baseIri a.2
  projection := "total-order"
  plannerRun := plannerRun
  activityCount := some (atoms.length : ℤ)
  children := atoms.zipIdx.map fun a => (slotIri baseIri a.2, childBinding baseIri precedes a.2)
  leaves := atoms.zipIdx.map fun a => (stepIri baseIri a.2, activityLeaf P baseIri a.1 a.2)
  bindings := atoms.zipIdx.flatMap fun a => parameterBindings P baseIri a.1 a.2

/-- `powl_node_to_model`. -/
def powlNodeToModel (node : PowlNode) (plannerRun : String) : Except BridgeError PowlModel := do
  let (atoms, precedes) ← atomsOf node
  return modelOf P baseIri plannerRun atoms precedes

end Bridge

/-! ## Nodes a model has words for -/

/-- `==` between nodes : the fields that dataclass equality compares. -/
def PowlNode.pyEq : PowlNode → PowlNode → Prop
  | .start, .start | .finish, .finish | .silent, .silent => True
  | .atom a, .atom b => a.label = b.label ∧ a.consequence = b.consequence ∧ a.key = b.key
  | .partialOrder n children body, .partialOrder n' children' body' =>
    body.order = body'.order ∧ body.frequency = body'.frequency ∧
      ∃ h : n = n', ∀ i, (children i).pyEq (children' (i.cast h))
  | .choiceGraph n children body, .choiceGraph n' children' body' =>
    body = body' ∧ ∃ h : n = n', ∀ i, (children i).pyEq (children' (i.cast h))
  | _, _ => False

/-- What the constructor of an atom leaves behind. -/
structure Atom.Constructed (K : PowlCanon) (a : Atom) : Prop where
  nodup : (a.bindings.map Prod.fst).Nodup
  key : a.key = K.canonicalJson a.keyMaterial

/-- An action that is a text, integers bound to texts, no effect. -/
structure Atom.Plain (a : Atom) : Prop where
  action : ∃ s, s ≠ "" ∧ a.action = .str s
  key : ∀ item ∈ a.bindings, ∃ n : ℤ, item.1 = toString n
  value : ∀ item ∈ a.bindings, ∃ s, item.2 = .str s
  consequence : a.consequence = .pure

/-- A bare atom, or a partial order of atoms, as the constructors leave it. -/
def PowlNode.Constructed (K : PowlCanon) : PowlNode → Prop
  | .atom a => a.Constructed K
  | .partialOrder n children body =>
    (∃ edges, mkPartialOrder n children edges body.frequency =
      .ok (.partialOrder n children body)) ∧ ∀ i, ∃ a, children i = .atom a ∧ a.Constructed K
  | _ => False

/-- Plain atoms, once. -/
def PowlNode.Plain : PowlNode → Prop
  | .atom a => a.Plain
  | .partialOrder _ children body => body.frequency = once ∧ ∀ i a, children i = .atom a → a.Plain
  | _ => True

/-- `sort_keys=True` : the order of the bindings of an atom does not show. -/
def PowlCanon.SortsKeys (K : PowlCanon) : Prop :=
  ∀ a b : Atom, a.label = b.label → a.action = b.action → a.consequence = b.consequence →
    (a.bindings.map Prod.fst).Nodup → a.bindings.Perm b.bindings →
    K.canonicalJson a.keyMaterial = K.canonicalJson b.keyMaterial

/-! ## IRIs are not shared -/

/-- Lists that agree up to the first `c` agree before and after it. -/
theorem eq_of_append_cons {α : Type} {c : α} : ∀ {x y s t : List α}, c ∉ x → c ∉ y →
    x ++ c :: s = y ++ c :: t → x = y ∧ s = t
  | [], [], _, _, _, _, h => ⟨rfl, (List.cons.inj h).2⟩
  | [], d :: _, _, _, _, hy, h => absurd ((List.cons.inj h).1 ▸ List.mem_cons_self) hy
  | d :: _, [], _, _, hx, _, h => absurd ((List.cons.inj h).1 ▸ List.mem_cons_self) hx
  | d :: x, e :: y, s, t, hx, hy, h => by
    obtain ⟨rfl, htail⟩ := List.cons.inj h
    obtain ⟨rfl, hst⟩ := eq_of_append_cons (fun hmem => hx (List.mem_cons_of_mem _ hmem))
      (fun hmem => hy (List.mem_cons_of_mem _ hmem)) htail
    exact ⟨rfl, hst⟩

theorem slash_notMem_toString (n : ℕ) : '/' ∉ (toString n).toList := by
  intro h
  rw [show (toString n).toList = Nat.toDigits 10 n from Nat.toList_repr] at h
  exact absurd (Nat.isDigit_of_mem_toDigits (by decide) (by decide) h) (by decide)

theorem toString_inj {m n : ℕ} (h : toString m = toString n) : m = n := Nat.repr_injective h

theorem stepIri_inj {baseIri : String} {i j : ℕ} (h : stepIri baseIri i = stepIri baseIri j) :
    i = j :=
  toString_inj (String.append_right_inj _ |>.mp h)

theorem slotIri_inj {baseIri : String} {i j : ℕ} (h : slotIri baseIri i = slotIri baseIri j) :
    i = j :=
  toString_inj (String.append_right_inj _ |>.mp h)

theorem bindingIri_inj {baseIri : String} {i j p q : ℕ}
    (h : bindingIri baseIri i p = bindingIri baseIri j q) : i = j ∧ p = q := by
  have hlist := congrArg String.toList h
  simp only [bindingIri, stepIri, String.toList_append, List.append_assoc,
    List.append_cancel_left_eq] at hlist
  obtain ⟨hi, hp⟩ := @eq_of_append_cons _ '/' _ _ ("binding/".toList ++ _) ("binding/".toList ++ _)
    (slash_notMem_toString i) (slash_notMem_toString j) hlist
  exact ⟨toString_inj (String.toList_injective hi),
    toString_inj (String.toList_injective (List.append_cancel_left hp))⟩

/-! ## Dicts -/

theorem nodup_setItem {bindings : Payload} {key : String} {value : Value}
    (h : (bindings.map Prod.fst).Nodup) : ((setItem bindings key value).map Prod.fst).Nodup := by
  unfold setItem
  split
  · have hkeys : (bindings.map fun item => if item.1 = key then (key, value) else item).map Prod.fst =
        bindings.map Prod.fst := by
      rw [List.map_map]
      refine List.map_congr_left fun item _ => ?_
      simp only [Function.comp_apply]
      split
      · next hitem => exact hitem.symm
      · rfl
    rwa [hkeys]
  · next hfresh =>
    rw [List.map_append, List.nodup_append]
    refine ⟨h, List.nodup_singleton _, ?_⟩
    rintro k hk _ hsingle rfl
    obtain rfl : k = key := by simpa using hsingle
    exact hfresh hk

theorem mem_setItem {bindings : Payload} {key : String} {value : Value} {item : String × Value}
    (h : item ∈ setItem bindings key value) : item ∈ bindings ∨ item = (key, value) := by
  unfold setItem at h
  split at h
  · obtain ⟨item', hitem', rfl⟩ := List.mem_map.mp h
    split
    · exact Or.inr rfl
    · exact Or.inl hitem'
  · simpa using h

/-- Fresh keys are appended. -/
theorem foldl_setItem : ∀ {items bindings : Payload}, ((bindings ++ items).map Prod.fst).Nodup →
    items.foldl (fun acc item => setItem acc item.1 item.2) bindings = bindings ++ items
  | [], bindings, _ => (List.append_nil bindings).symm
  | (key, value) :: items, bindings, h => by
    have hfresh : key ∉ bindings.map Prod.fst := by
      rw [List.map_append, List.nodup_append] at h
      exact fun hmem => h.2.2 key hmem key List.mem_cons_self rfl
    rw [List.foldl_cons, setItem, if_neg hfresh, foldl_setItem]
    · rw [List.append_assoc, List.singleton_append]
    · rwa [List.append_assoc, List.singleton_append]

/-! ## The atoms survive -/

section Atoms

variable {K : PowlCanon} {P : PyText} {baseIri plannerRun : String} {atoms : List Atom}
  {precedes : ℕ → List ℕ}

theorem orderedChildren_modelOf :
    (modelOf P baseIri plannerRun atoms precedes).orderedChildren =
      atoms.zipIdx.map fun a => childBinding baseIri precedes a.2 := by
  have hsorted : (atoms.zipIdx.map fun a => childBinding baseIri precedes a.2).Pairwise
      fun c c' => c.childIndex ≤ c'.childIndex := by
    have hrange : (atoms.zipIdx.map Prod.snd).Pairwise (· < ·) := by
      rw [List.zipIdx_map_snd]
      exact List.pairwise_lt_range'
    rw [List.pairwise_map] at hrange ⊢
    exact hrange.imp fun h => Int.ofNat_le.mpr h.le
  rw [PowlModel.orderedChildren, modelOf, List.map_map]
  exact hsorted.insertionSort_eq

theorem lookup_leaves {a : Atom} {i : ℕ} (h : (a, i) ∈ atoms.zipIdx) :
    (modelOf P baseIri plannerRun atoms precedes).leaves.lookup (stepIri baseIri i) =
      some (activityLeaf P baseIri a i) := by
  refine lookup_of_mem ?_ (List.mem_map_of_mem (f := fun a : Atom × ℕ =>
    (stepIri baseIri a.2, activityLeaf P baseIri a.1 a.2)) h)
  have hkeys : (modelOf P baseIri plannerRun atoms precedes).leaves.map Prod.fst =
      (atoms.zipIdx.map Prod.snd).map (stepIri baseIri) := by
    rw [modelOf, List.map_map, List.map_map]
    rfl
  rw [hkeys]
  exact (List.nodup_zipIdx_map_snd atoms).map fun _ _ => stepIri_inj

theorem lookup_bindings {a : Atom} {i : ℕ} (h : (a, i) ∈ atoms.zipIdx)
    {b : String × ParameterBinding} (hb : b ∈ parameterBindings P baseIri a i) :
    (modelOf P baseIri plannerRun atoms precedes).bindings.lookup b.1 = some b.2 := by
  refine lookup_of_mem ?_ (List.mem_flatMap.mpr ⟨(a, i), h, hb⟩)
  have hkeys : (modelOf P baseIri plannerRun atoms precedes).bindings.map Prod.fst =
      atoms.zipIdx.flatMap fun a =>
        ((sortedBindings P a.1).map Prod.snd).map (bindingIri baseIri a.2) := by
    rw [modelOf, List.map_flatMap]
    simp only [parameterBindings, List.map_map]
    rfl
  rw [hkeys, List.nodup_flatMap]
  constructor
  · intro a _
    exact (List.nodup_zipIdx_map_snd _).map fun _ _ h => (bindingIri_inj h).2
  · have hnodup := List.nodup_zipIdx_map_snd atoms
    rw [List.Nodup, List.pairwise_map] at hnodup
    refine hnodup.imp fun hne => List.disjoint_left.mpr fun iri h h' => ?_
    obtain ⟨p, -, rfl⟩ := List.mem_map.mp h
    obtain ⟨q, -, hq⟩ := List.mem_map.mp h'
    exact hne (bindingIri_inj hq).1.symm

/-- What is read off the bindings of an atom. -/
def rereadBindings (P : PyText) (a : Atom) : Payload :=
  (sortedBindings P a).foldl (fun acc b =>
    setItem acc (toString (bindingIndex P b.1.1 b.2)) (.str (P.str b.1.2))) []

/-- What a round trip makes of an atom. -/
def reread (K : PowlCanon) (P : PyText) (baseIri : String) (a : Atom) : Atom :=
  K.atom a.label (.str (implementsAction baseIri a)) (rereadBindings P a)

theorem bindingsOf_activityLeaf {a : Atom} {i : ℕ} (h : (a, i) ∈ atoms.zipIdx) :
    bindingsOf (modelOf P baseIri plannerRun atoms precedes) (activityLeaf P baseIri a i) =
      .ok (rereadBindings P a) := by
  rw [bindingsOf, activityLeaf, List.foldlM_map, foldlM_eq_ok (g := fun acc b =>
    setItem acc (toString b.2.bindingIndex) (.str b.2.boundObject))]
  · rw [parameterBindings, List.foldl_map]
    rfl
  · intro b hb acc
    rw [lookup_bindings h hb]

theorem atomOf_childBinding {a : Atom} {i : ℕ} (h : (a, i) ∈ atoms.zipIdx) :
    atomOf K (modelOf P baseIri plannerRun atoms precedes) (childBinding baseIri precedes i) =
      .ok (reread K P baseIri a) := by
  rw [atomOf, childBinding, lookup_leaves h]
  simp only [bindingsOf_activityLeaf h]
  rfl

/-! ## What a plain atom is read as -/

/-- The bindings of an atom, in the order they are emitted in. -/
def orderedBindings (P : PyText) (a : Atom) : Payload :=
  a.bindings.insertionSort fun x y => bindingSortKey P x.1 ≤ bindingSortKey P y.1

theorem orderedBindings_perm (a : Atom) : (orderedBindings P a).Perm a.bindings :=
  List.perm_insertionSort _ _

theorem rereadBindings_eq {a : Atom} (hnodup : (a.bindings.map Prod.fst).Nodup)
    (hplain : a.Plain) : rereadBindings P a = orderedBindings P a := by
  have hitem : ∀ b ∈ sortedBindings P a,
      (toString (bindingIndex P b.1.1 b.2), Value.str (P.str b.1.2)) = b.1 := by
    intro b hb
    have hmem : b.1 ∈ a.bindings :=
      (orderedBindings_perm a).subset (List.fst_mem_of_mem_zipIdx hb)
    obtain ⟨n, hn⟩ := hplain.key b.1 hmem
    obtain ⟨s, hs⟩ := hplain.value b.1 hmem
    refine Prod.ext ?_ ?_
    · rw [bindingIndex, hn, P.int_toString, Option.getD_some]
    · rw [hs, P.str_str]
  have hkeys : ((orderedBindings P a).map Prod.fst).Nodup :=
    ((orderedBindings_perm a).map Prod.fst).nodup_iff.mpr hnodup
  calc rereadBindings P a
      = (sortedBindings P a).foldl (fun acc b => setItem acc b.1.1 b.1.2) [] :=
        List.foldl_ext _ _ _ fun acc b hb =>
          congrArg (fun item : String × Value => setItem acc item.1 item.2) (hitem b hb)
    _ = ((sortedBindings P a).map Prod.fst).foldl (fun acc item => setItem acc item.1 item.2) [] :=
        by rw [List.foldl_map]
    _ = (orderedBindings P a).foldl (fun acc item => setItem acc item.1 item.2) [] := by
        rw [sortedBindings, List.zipIdx_map_fst, orderedBindings]
    _ = orderedBindings P a := foldl_setItem hkeys

theorem pyEq_reread (hK : K.SortsKeys) {a : Atom} (ha : a.Constructed K) (hplain : a.Plain) :
    (PowlNode.atom (reread K P baseIri a)).pyEq (.atom a) := by
  obtain ⟨s, hs, haction⟩ := hplain.action
  have himplements : a.action = .str (implementsAction baseIri a) := by
    rw [implementsAction, haction]
    simp [hs]
  refine ⟨rfl, hplain.consequence.symm, ?_⟩
  have hbindings : a.bindings.Perm (reread K P baseIri a).bindings := by
    rw [reread, PowlCanon.atom, rereadBindings_eq ha.nodup hplain]
    exact (orderedBindings_perm a).symm
  rw [ha.key]
  exact (hK a (reread K P baseIri a) rfl himplements hplain.consequence ha.nodup hbindings).symm

/-! ## The order survives -/

theorem find?_eq_some_of_unique {α : Type} {p : α → Bool} {a : α} {l : List α} (hmem : a ∈ l)
    (ha : p a = true) (hunique : ∀ b ∈ l, p b = true → b = a) : l.find? p = some a := by
  cases hfind : l.find? p with
  | none => exact absurd ha (List.find?_eq_none.mp hfind a hmem)
  | some b => rw [hunique b (List.mem_of_find?_eq_some hfind) (List.find?_some hfind)]

theorem indexOfChildIri_slotIri {j : ℕ} (hj : j < atoms.length) :
    indexOfChildIri (atoms.zipIdx.map fun a => childBinding baseIri precedes a.2)
      (slotIri baseIri j) = some j := by
  have hordered : (atoms.zipIdx.map fun a => childBinding baseIri precedes a.2) =
      (List.range atoms.length).map (childBinding baseIri precedes) := by
    rw [List.range_eq_range', ← List.zipIdx_map_snd 0 atoms, List.map_map]
    rfl
  have hmem : (childBinding baseIri precedes j, j) ∈
      ((List.range atoms.length).map (childBinding baseIri precedes)).zipIdx.reverse := by
    rw [List.mem_reverse, List.mem_zipIdx_iff_getElem?]
    simp [hj]
  rw [indexOfChildIri, hordered, find?_eq_some_of_unique hmem (by simp [childBinding])]
  · rfl
  · rintro ⟨c, p⟩ hb hiri
    rw [List.mem_reverse, List.mem_zipIdx_iff_getElem?, List.getElem?_map] at hb
    obtain ⟨i, hi, rfl⟩ := Option.map_eq_some_iff.mp hb
    obtain ⟨_, hpi⟩ := List.getElem?_eq_some_iff.mp hi
    obtain rfl : p = i := by simpa using hpi
    obtain rfl : p = j := slotIri_inj (of_decide_eq_true hiri)
    rfl

/-- The edges a model says, once all its slots are read. -/
theorem mem_foldl_union {α : Type} {F : α → Finset OrderEdge} {e : OrderEdge} :
    ∀ {l : List α} {edges : Finset OrderEdge},
      e ∈ l.foldl (fun edges a => edges ∪ F a) edges ↔ e ∈ edges ∨ ∃ a ∈ l, e ∈ F a
  | [], edges => by simp
  | a :: l, edges => by
    rw [List.foldl_cons, mem_foldl_union, Finset.mem_union, List.exists_mem_cons_iff, or_assoc]

theorem foldl_insert_eq {i : ℕ} : ∀ {l : List ℕ} {edges : Finset OrderEdge},
    l.foldl (fun edges j => insert ⟨i, j⟩ edges) edges =
      edges ∪ l.toFinset.image fun j => ⟨i, j⟩
  | [], edges => by simp
  | j :: l, edges => by
    rw [List.foldl_cons, foldl_insert_eq, List.toFinset_cons, Finset.image_insert,
      Finset.union_insert, Finset.insert_union]

theorem edgesFrom_childBinding {i : ℕ} (hi : i < atoms.length)
    (hprecedes : ∀ j ∈ precedes i, j < atoms.length) (edges : Finset OrderEdge) :
    edgesFrom (atoms.zipIdx.map fun a => childBinding baseIri precedes a.2) edges
      (childBinding baseIri precedes i) =
        .ok (edges ∪ (precedes i).toFinset.image fun j => ⟨i, j⟩) := by
  have hsrc : indexOfChildIri (atoms.zipIdx.map fun a => childBinding baseIri precedes a.2)
      (childBinding baseIri precedes i).iri = some i := indexOfChildIri_slotIri hi
  rw [edgesFrom, hsrc, childBinding, List.foldlM_map,
    foldlM_eq_ok (g := fun edges j => insert ⟨i, j⟩ edges), foldl_insert_eq]
  intro j hj edges
  rw [indexOfChildIri_slotIri (hprecedes j hj)]
  rfl

/-- The edges of the model are the pairs it was given. -/
theorem edges_modelOf (hprecedes : ∀ i < atoms.length, ∀ j ∈ precedes i, j < atoms.length) :
    ∃ edges, (atoms.zipIdx.map fun a => childBinding baseIri precedes a.2).foldlM
        (edgesFrom (atoms.zipIdx.map fun a => childBinding baseIri precedes a.2)) ∅ = .ok edges ∧
      ∀ e : OrderEdge, e ∈ edges ↔ e.src < atoms.length ∧ e.dst ∈ precedes e.src := by
  have hindex : ∀ a ∈ atoms.zipIdx, a.2 < atoms.length := fun a ha => List.snd_lt_of_mem_zipIdx ha
  refine ⟨atoms.zipIdx.foldl
    (fun edges a => edges ∪ (precedes a.2).toFinset.image fun j => ⟨a.2, j⟩) ∅, ?_, ?_⟩
  · rw [List.foldlM_map]
    exact foldlM_eq_ok fun a ha edges =>
      edgesFrom_childBinding (hindex a ha) (hprecedes a.2 (hindex a ha)) edges
  · intro e
    rw [mem_foldl_union]
    constructor
    · rintro (h | ⟨a, ha, h⟩)
      · exact absurd h (Finset.notMem_empty e)
      · obtain ⟨j, hj, rfl⟩ := Finset.mem_image.mp h
        exact ⟨hindex a ha, List.mem_toFinset.mp hj⟩
    · intro ⟨hsrc, hdst⟩
      refine Or.inr ⟨(atoms[e.src], e.src), ?_, Finset.mem_image.mpr ⟨e.dst, ?_, rfl⟩⟩
      · rw [List.mem_zipIdx_iff_getElem?]
        exact List.getElem?_eq_getElem hsrc
      · exact List.mem_toFinset.mpr hdst

/-! ## The node survives -/

theorem nodeOf_eq {n : ℕ} {edges : Finset OrderEdge} (hn : 2 ≤ n) :
    ∀ {l : List Atom} (h : l.length = n),
      nodeOf l edges =
        (PowlNode.mkPartialOrder n (fun i => .atom (l.get (i.cast h.symm))) edges).mapError .powl
  | [], h => absurd hn (by simp [← h])
  | [_], h => absurd hn (by simp [← h])
  | _ :: _ :: _, rfl => rfl

/-- What is read off a model : the atoms, reread, and the pairs it was given. -/
theorem powlModelToNode_modelOf (hne : atoms ≠ []) {edges : Finset OrderEdge}
    (hedges : ∀ e : OrderEdge, e ∈ edges ↔ e.src < atoms.length ∧ e.dst ∈ precedes e.src)
    (hbounded : ∀ e ∈ edges, e.dst < atoms.length) :
    powlModelToNode K (modelOf P baseIri plannerRun atoms precedes) =
      nodeOf (atoms.map (reread K P baseIri)) edges := by
  have hmapM : (atoms.zipIdx.map fun a => childBinding baseIri precedes a.2).mapM
      (atomOf K (modelOf P baseIri plannerRun atoms precedes)) =
        .ok (atoms.map (reread K P baseIri)) := by
    rw [List.mapM_map, mapM_eq_ok (g := fun a : Atom × ℕ => reread K P baseIri a.1)]
    · have hfst : (atoms.zipIdx.map fun a => reread K P baseIri a.1) =
          (atoms.zipIdx.map Prod.fst).map (reread K P baseIri) := by
        rw [List.map_map]
        rfl
      rw [hfst, List.zipIdx_map_fst]
    · exact fun a ha => atomOf_childBinding ha
  obtain ⟨edges', hedges', hmem⟩ := @edges_modelOf baseIri atoms precedes fun i hi j hj =>
    hbounded ⟨i, j⟩ ((hedges ⟨i, j⟩).mpr ⟨hi, hj⟩)
  obtain rfl : edges' = edges := Finset.ext fun e => (hmem e).trans (hedges e).symm
  rw [powlModelToNode, orderedChildren_modelOf, if_neg (by simpa using hne)]
  simp only [hmapM, hedges']
  rfl

end Atoms

section RoundTrip

variable {K : PowlCanon} {P : PyText} {baseIri plannerRun : String}

/-- `powl_model_to_node(powl_node_to_model(node))`. -/
def roundTrip (K : PowlCanon) (P : PyText) (baseIri : String) (node : PowlNode)
    (plannerRun : String) : Except BridgeError PowlNode := do
  let m ← powlNodeToModel P baseIri node plannerRun
  powlModelToNode K m

theorem roundTrip_atom {a : Atom} :
    roundTrip K P baseIri (.atom a) plannerRun = .ok (.atom (reread K P baseIri a)) := by
  have hbounded : ∀ e ∈ (∅ : Finset OrderEdge), e.dst < [a].length := by simp
  exact powlModelToNode_modelOf (List.cons_ne_nil a []) (by simp) hbounded

/-- The edges that `precedes_by_index` lists are those of the closure. -/
theorem mem_closure_iff {closure : Finset OrderEdge} {e : OrderEdge} :
    e.dst ∈ ((closure.filter fun e' => e'.src = e.src).image OrderEdge.dst).sort (· ≤ ·) ↔
      e ∈ closure := by
  rw [Finset.mem_sort, Finset.mem_image]
  constructor
  · rintro ⟨e', he', hdst⟩
    obtain ⟨hmem, hsrc⟩ := Finset.mem_filter.mp he'
    obtain ⟨src, dst⟩ := e'
    obtain ⟨rfl, rfl⟩ := And.intro hsrc hdst
    exact hmem
  · exact fun he => ⟨e, Finset.mem_filter.mpr ⟨he, rfl⟩, rfl⟩

theorem atomsOf_partialOrder {n : ℕ} {as : Fin n → Atom} {body : OrderBody} :
    atomsOf (.partialOrder n (fun i => .atom (as i)) body) =
      .ok (List.ofFn as, fun i =>
        ((body.closure.filter fun e => e.src = i).image OrderEdge.dst).sort (· ≤ ·)) := by
  have hsome : (List.ofFn fun i => PowlNode.atom (as i)).mapM PowlNode.atom? =
      some (List.ofFn as) := by
    have hmap : (List.ofFn fun i => PowlNode.atom (as i)) = (List.ofFn as).map .atom :=
      List.map_ofFn.symm
    rw [hmap, List.mapM_map]
    exact List.mapM_pure.trans (congrArg some (List.map_id _))
  rw [atomsOf]
  simp only [hsome]

theorem roundTrip_partialOrder {n : ℕ} {as : Fin n → Atom} {body : OrderBody}
    {edges : Finset OrderEdge}
    (hnode : PowlNode.mkPartialOrder n (fun i => .atom (as i)) edges body.frequency =
      .ok (.partialOrder n (fun i => .atom (as i)) body)) :
    roundTrip K P baseIri (.partialOrder n (fun i => .atom (as i)) body) plannerRun =
      .ok (.partialOrder n (fun i => .atom (reread K P baseIri (as i)))
        { body with frequency := once }) := by
  obtain ⟨hn, hclosure, hreduction, -, hdepth⟩ := mkPartialOrder_eq_ok_iff.mp hnode
  have hagain := transitiveClosure_closure hclosure
  have hbounded : ∀ e ∈ body.closure, e.src < n ∧ e.dst < n := (transitiveClosure_eq_ok.mp hagain).1
  have hlength : ((List.ofFn as).map (reread K P baseIri)).length = n := by
    rw [List.length_map, List.length_ofFn]
  have hchildren : (fun i : Fin n => PowlNode.atom
      (((List.ofFn as).map (reread K P baseIri)).get (i.cast hlength.symm))) =
        fun i => .atom (reread K P baseIri (as i)) := by
    funext i
    simp
  have hne : List.ofFn as ≠ [] := by
    rw [← List.length_pos_iff, List.length_ofFn]
    omega
  have hedges (e : OrderEdge) : e ∈ body.closure ↔ e.src < (List.ofFn as).length ∧
      e.dst ∈ ((body.closure.filter fun e' => e'.src = e.src).image OrderEdge.dst).sort (· ≤ ·) := by
    rw [mem_closure_iff, List.length_ofFn]
    exact ⟨fun he => ⟨(hbounded e he).1, he⟩, And.right⟩
  rw [roundTrip, powlNodeToModel, atomsOf_partialOrder]
  refine (powlModelToNode_modelOf hne hedges ?_).trans ?_
  · intro e he
    rw [List.length_ofFn]
    exact (hbounded e he).2
  · rw [nodeOf_eq hn hlength, hchildren]
    exact mapError_eq_ok.mpr (mkPartialOrder_eq_ok_iff.mpr ⟨hn, hagain, hreduction, rfl, hdepth⟩)

/-- A node is read back with its labels and its order; an action that is not a text, or empty,
becomes the label under the base, and the bindings are numbered and bound to texts. -/
def PowlNode.Reread (P : PyText) (baseIri : String) : PowlNode → PowlNode → Prop
  | .atom a, .atom b => b.label = a.label ∧ b.action = .str (implementsAction baseIri a) ∧
    b.bindings = rereadBindings P a
  | .partialOrder n children body, .partialOrder n' children' body' =>
    body'.order = body.order ∧ body'.closure = body.closure ∧
      ∃ h : n = n', ∀ i, (children i).Reread P baseIri (children' (i.cast h))
  | _, _ => False

/-- Nodes `powl_node_to_model` accepts, round. -/
theorem roundTrip_reread (hK : K.SortsKeys) {node : PowlNode} (hnode : node.Constructed K) :
    ∃ node', roundTrip K P baseIri node plannerRun = .ok node' ∧ node.Reread P baseIri node' ∧
      (node.Plain → node'.pyEq node) := by
  match node, hnode with
  | .atom a, ha => exact ⟨_, roundTrip_atom, ⟨rfl, rfl, rfl⟩, pyEq_reread hK ha⟩
  | .partialOrder n children body, ⟨⟨edges, hedges⟩, hatoms⟩ =>
    choose as has hconstructed using hatoms
    obtain rfl : children = fun i => .atom (as i) := funext has
    refine ⟨_, roundTrip_partialOrder hedges, ⟨rfl, rfl, rfl, fun i => ⟨rfl, rfl, rfl⟩⟩, ?_⟩
    exact fun ⟨honce, hplain⟩ =>
      ⟨rfl, honce.symm, rfl, fun i => pyEq_reread hK (hconstructed i) (hplain i _ rfl)⟩

/-! ## What a model is read as -/

/-- Every leaf of a child names an action. -/
def PowlModel.NamesActions (m : PowlModel) : Prop :=
  ∀ child ∈ m.orderedChildren, ∀ leaf, m.leaves.lookup child.childModel = some leaf →
    leaf.implementsAction ≠ ""

variable {m : PowlModel}

theorem bindingsOf_plain {leaf : ActivityLeaf} {bindings : Payload}
    (h : bindingsOf m leaf = .ok bindings) : (bindings.map Prod.fst).Nodup ∧
      ∀ item ∈ bindings, (∃ n : ℤ, item.1 = toString n) ∧ ∃ s, item.2 = .str s := by
  refine foldlM_invariant (I := fun bindings => (bindings.map Prod.fst).Nodup ∧
    ∀ item ∈ bindings, (∃ n : ℤ, item.1 = toString n) ∧ ∃ s, item.2 = .str s) ?_
    ⟨List.nodup_nil, nofun⟩ h
  intro bindingIri bindings bindings' ⟨hnodup, hitems⟩ hstep
  cases hlookup : m.bindings.lookup bindingIri with
  | none =>
    rw [hlookup] at hstep
    cases hstep
  | some binding =>
    rw [hlookup] at hstep
    cases hstep
    refine ⟨nodup_setItem hnodup, fun item hitem => ?_⟩
    rcases mem_setItem hitem with hitem | rfl
    · exact hitems item hitem
    · exact ⟨⟨_, rfl⟩, ⟨_, rfl⟩⟩

theorem atomOf_plain {child : ChildBinding} (hchild : child ∈ m.orderedChildren) {a : Atom}
    (h : atomOf K m child = .ok a) : a.Constructed K ∧ (m.NamesActions → a.Plain) := by
  rw [atomOf] at h
  cases hleaf : m.leaves.lookup child.childModel with
  | none =>
    rw [hleaf] at h
    cases h
  | some leaf =>
    rw [hleaf] at h
    obtain ⟨bindings, hbindings, ha⟩ := bind_eq_ok.mp h
    obtain ⟨hnodup, hitems⟩ := bindingsOf_plain hbindings
    cases ha
    refine ⟨⟨hnodup, rfl⟩, fun hnames => ⟨⟨_, hnames child hchild leaf hleaf, rfl⟩, ?_, ?_, rfl⟩⟩
    · exact fun item hitem => (hitems item hitem).1
    · exact fun item hitem => (hitems item hitem).2

theorem nodeOf_eq_ok {atoms : List Atom} {edges : Finset OrderEdge} {node : PowlNode}
    (h : nodeOf atoms edges = .ok node) : (∃ a ∈ atoms, node = .atom a) ∨
      ∃ body : OrderBody, body.frequency = once ∧
        node = .partialOrder atoms.length (fun i => .atom (atoms.get i)) body ∧
        PowlNode.mkPartialOrder atoms.length (fun i => .atom (atoms.get i)) edges = .ok node := by
  unfold nodeOf at h
  split at h
  · next a => exact Or.inl ⟨a, List.mem_singleton_self a, (Except.ok.inj h).symm⟩
  · have hnode := mapError_eq_ok.mp h
    obtain ⟨body, honce, hbody⟩ := exists_of_mkPartialOrder hnode
    exact Or.inr ⟨body, honce, hbody, hnode⟩

theorem plain_of_powlModelToNode {node : PowlNode} (h : powlModelToNode K m = .ok node) :
    node.Constructed K ∧ (m.NamesActions → node.Plain) := by
  obtain ⟨-, h⟩ := ite_throw_eq_ok.mp h
  obtain ⟨atoms, hatoms, h⟩ := bind_eq_ok.mp h
  obtain ⟨edges, -, h⟩ := bind_eq_ok.mp h
  have hplain : ∀ a ∈ atoms, a.Constructed K ∧ (m.NamesActions → a.Plain) := by
    intro a ha
    obtain ⟨child, hchild, hatom⟩ := exists_of_mem_mapM hatoms a ha
    exact atomOf_plain hchild hatom
  rcases nodeOf_eq_ok h with ⟨a, ha, rfl⟩ | ⟨body, honce, rfl, hnode⟩
  · exact hplain a ha
  · constructor
    · exact ⟨⟨edges, honce ▸ hnode⟩, fun i => ⟨_, rfl, (hplain _ (atoms.get_mem i)).1⟩⟩
    · refine fun hnames => ⟨honce, fun i a ha => ?_⟩
      exact PowlNode.atom.inj ha ▸ (hplain _ (atoms.get_mem i)).2 hnames

/-- Every node in scope is read back with its labels and its order, and is itself when it is of
the vocabulary of the Turtle side; so is every node read from a model whose leaves name their
actions. -/
theorem bridge_round_trip (K : PowlCanon) (hK : K.SortsKeys) (P : PyText)
    (baseIri plannerRun : String) :
    (∀ node : PowlNode, node.Constructed K →
      ∃ node', roundTrip K P baseIri node plannerRun = .ok node' ∧ node.Reread P baseIri node' ∧
        (node.Plain → node'.pyEq node)) ∧
    ∀ (m : PowlModel) (node : PowlNode), powlModelToNode K m = .ok node →
      ∃ node', roundTrip K P baseIri node plannerRun = .ok node' ∧ node.Reread P baseIri node' ∧
        (m.NamesActions → node'.pyEq node) := by
  refine ⟨fun node => roundTrip_reread hK, fun m node h => ?_⟩
  obtain ⟨hnode, hplain⟩ := plain_of_powlModelToNode h
  obtain ⟨node', hround, hreread, heq⟩ := roundTrip_reread hK hnode
  exact ⟨node', hround, hreread, heq ∘ hplain⟩

end RoundTrip

/-! ## Sorted keys -/

theorem renderItems_cons_eq_ok {key : String} {value : Value} {items : Payload}
    {texts : List (String × String)} :
    Value.renderItems ((key, value) :: items) = .ok texts ↔
      ∃ text rest, value.render = .ok text ∧ Value.renderItems items = .ok rest ∧
        (key, text) :: rest = texts := by
  rw [Value.renderItems]
  cases value.render with
  | error e => simp
  | ok text => cases Value.renderItems items <;> simp

/-- The texts of bindings follow their order. -/
theorem renderItems_perm {items items' : Payload} (h : items.Perm items') :
    ∀ {texts}, Value.renderItems items = .ok texts →
      ∃ texts', Value.renderItems items' = .ok texts' ∧ texts.Perm texts' := by
  induction h with
  | nil => exact fun h => ⟨_, h, .refl _⟩
  | cons item _ ih =>
    intro texts h
    obtain ⟨text, rest, htext, hrest, rfl⟩ := renderItems_cons_eq_ok.mp h
    obtain ⟨rest', hrest', hperm⟩ := ih hrest
    exact ⟨_, renderItems_cons_eq_ok.mpr ⟨text, rest', htext, hrest', rfl⟩, hperm.cons _⟩
  | swap item item' items =>
    intro texts h
    obtain ⟨text', rest', htext', hrest', rfl⟩ := renderItems_cons_eq_ok.mp h
    obtain ⟨text, rest, htext, hrest, rfl⟩ := renderItems_cons_eq_ok.mp hrest'
    exact ⟨_, renderItems_cons_eq_ok.mpr
      ⟨text, _, htext, renderItems_cons_eq_ok.mpr ⟨text', rest, htext', hrest, rfl⟩, rfl⟩, .swap _ _ _⟩
  | trans _ _ ih ih' =>
    intro texts h
    obtain ⟨texts', h', hperm⟩ := ih h
    obtain ⟨texts'', h'', hperm'⟩ := ih' h'
    exact ⟨texts'', h'', hperm.trans hperm'⟩

theorem fst_renderItems : ∀ {items : Payload} {texts : List (String × String)},
    Value.renderItems items = .ok texts → texts.map Prod.fst = items.map Prod.fst
  | [], _, h => by
    rw [Value.renderItems] at h
    cases h
    rfl
  | (key, value) :: items, texts, h => by
    obtain ⟨text, rest, -, hrest, rfl⟩ := renderItems_cons_eq_ok.mp h
    exact congrArg (key :: ·) (fst_renderItems hrest)

theorem render_dict_perm {items items' : Payload} (hnodup : (items.map Prod.fst).Nodup)
    (h : items.Perm items') :
    (Value.dict items).render.toOption = (Value.dict items').render.toOption := by
  rw [Value.render, Value.render]
  cases hitems : Value.renderItems items with
  | error e =>
    cases hitems' : Value.renderItems items' with
    | error e' => rfl
    | ok texts' =>
      obtain ⟨texts, htexts, -⟩ := renderItems_perm h.symm hitems'
      cases hitems.symm.trans htexts
  | ok texts =>
    obtain ⟨texts', htexts', hperm⟩ := renderItems_perm h hitems
    have hkeys : (texts.map Prod.fst).Nodup := fst_renderItems hitems ▸ hnodup
    rw [htexts', Except.map, Except.map, insertionSort_eq_of_perm hkeys hperm]

theorem reference_sortsKeys : PowlCanon.reference.SortsKeys := by
  intro a b hlabel haction hconsequence hnodup hperm
  have hdict := render_dict_perm hnodup hperm
  have hmaterial : a.keyMaterial.render.toOption = b.keyMaterial.render.toOption := by
    rw [Atom.keyMaterial, Atom.keyMaterial, hlabel, haction, hconsequence, Value.render, Value.render]
    simp only [Value.renderItems]
    cases ha : (Value.dict a.bindings).render with
    | error e =>
      cases hb : (Value.dict b.bindings).render with
      | error e' => rfl
      | ok text' => simp [ha, hb, Except.toOption] at hdict
    | ok text =>
      cases hb : (Value.dict b.bindings).render with
      | error e' => simp [ha, hb, Except.toOption] at hdict
      | ok text' =>
        obtain rfl : text = text' := by simpa [ha, hb, Except.toOption] using hdict
        rfl
  exact congrArg (·.getD "") hmaterial

/-! ## Runs of the bridge -/

theorem sampleText_str : ∀ s : String, (match Value.str s with
    | .str s => s
    | v => v.render.toOption.getD "") = s := fun _ => rfl

/-- The `int` of the core library, and the text of a value. -/
def PyText.sample : PyText where
  int := String.toInt?
  str := fun v => match v with
    | .str s => s
    | v => v.render.toOption.getD ""
  int_toString := Int.toInt?_repr
  str_str := sampleText_str

theorem toInt?_block : "block".toInt? = none := by
  rw [String.toInt?_eq_none_iff, ← Bool.not_eq_true, String.isInt_iff]
  rintro (h | ⟨t, h, -⟩)
  · exact absurd ((String.isNat_iff.mp h).2.1 'b' (by decide)) (by decide)
  · have hlist := congrArg String.toList h
    rw [String.toList_append] at hlist
    exact absurd (List.cons.inj hlist).1 (by decide)

/-- An atom is read back as another. -/
theorem not_roundTrip_atom {K : PowlCanon} {P : PyText} {baseIri plannerRun : String} {a : Atom}
    (h : (reread K P baseIri a).key ≠ a.key) :
    ¬∃ node', roundTrip K P baseIri (.atom a) plannerRun = .ok node' ∧ node'.pyEq (.atom a) := by
  rintro ⟨node', hround, heq⟩
  rw [roundTrip_atom] at hround
  obtain rfl := Except.ok.inj hround
  exact h heq.2.2

theorem bridge_round_trip_pick :
    PowlCanon.reference.SortsKeys ∧
      ∃ node', roundTrip .reference .sample "urn:lab"
          (.atom (PowlCanon.reference.atom "pick" (.str "urn:pick") [("0", .str "a")])) "run" =
            .ok node' ∧
        node'.pyEq (.atom (PowlCanon.reference.atom "pick" (.str "urn:pick") [("0", .str "a")])) := by
  refine ⟨reference_sortsKeys, ?_⟩
  obtain ⟨node', hround, -, heq⟩ := (bridge_round_trip .reference reference_sortsKeys .sample
    "urn:lab" "run").1 (.atom (PowlCanon.reference.atom "pick" (.str "urn:pick") [("0", .str "a")]))
    ⟨List.nodup_singleton _, rfl⟩
  refine ⟨node', hround, heq ⟨⟨"urn:pick", by decide, rfl⟩, ?_, ?_, rfl⟩⟩
  · intro item hitem
    rw [List.mem_singleton.mp hitem]
    exact ⟨0, rfl⟩
  · intro item hitem
    rw [List.mem_singleton.mp hitem]
    exact ⟨"a", rfl⟩

/-- Atoms without an action, with a key that is no integer, and with a value that is no text. -/
noncomputable def unrepresentable : List Atom :=
  [PowlCanon.reference.atom "pick" .none [],
    PowlCanon.reference.atom "pick" (.str "urn:pick") [("block", .str "a")],
    PowlCanon.reference.atom "pick" (.str "urn:pick") [("0", .int 3)]]

theorem rereadBindings_singleton {P : PyText} {a : Atom} {key : String} {value : Value}
    (h : a.bindings = [(key, value)]) :
    rereadBindings P a = [(toString (bindingIndex P key 0), .str (P.str value))] := by
  rw [rereadBindings, sortedBindings, h]
  rfl

/-- A model whose only leaf names no action. -/
def unnamedModel : PowlModel where
  iri := "urn:lab/plan"
  types := []
  derivedFrom := []
  wasDerivedFrom := []
  hasChild := []
  children := [("slot", { iri := "slot", childIndex := 0, childModel := "step" })]
  leaves := [("step", { iri := "step", activityLabel := "pick", implementsAction := "", planOrdinal := 0 })]

/-- Neither law holds of every node and of every model. -/
theorem unrepresentable_lost :
    (∀ a ∈ unrepresentable, a.Constructed .reference ∧
      (∃ m, powlNodeToModel .sample "urn:lab" (.atom a) "run" = .ok m) ∧
      ¬∃ node', roundTrip .reference .sample "urn:lab" (.atom a) "run" = .ok node' ∧
        node'.pyEq (.atom a)) ∧
    ∃ node, powlModelToNode .reference unnamedModel = .ok node ∧
      ¬∃ node', roundTrip .reference .sample "urn:lab" node "run" = .ok node' ∧
        node'.pyEq node := by
  constructor
  · intro a ha
    simp only [unrepresentable, List.mem_cons, List.not_mem_nil, or_false] at ha
    rcases ha with rfl | rfl | rfl
    · exact ⟨⟨List.nodup_nil, rfl⟩, ⟨_, rfl⟩, not_roundTrip_atom (by decide +kernel)⟩
    · have hindex : bindingIndex .sample "block" 0 = 0 := congrArg (·.getD (0 : ℕ)) toInt?_block
      refine ⟨⟨List.nodup_singleton _, rfl⟩, ⟨_, rfl⟩, not_roundTrip_atom ?_⟩
      rw [reread, rereadBindings_singleton rfl, hindex]
      decide +kernel
    · have hindex : bindingIndex .sample "0" 0 = 0 := by
        have hzero : "0".toInt? = some 0 := Int.toInt?_repr 0
        exact congrArg (·.getD (0 : ℕ)) hzero
      refine ⟨⟨List.nodup_singleton _, rfl⟩, ⟨_, rfl⟩, not_roundTrip_atom ?_⟩
      rw [reread, rereadBindings_singleton rfl, hindex]
      decide +kernel
  · refine ⟨.atom (PowlCanon.reference.atom "pick" (.str "") []), rfl, not_roundTrip_atom ?_⟩
    decide +kernel

end GymAct.Powl
