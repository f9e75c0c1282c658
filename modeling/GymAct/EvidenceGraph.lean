import GymAct.TopologicalOrder
import Mathlib.Data.List.AList
import Mathlib.Data.List.Dedup
import Mathlib.Data.List.Sort
import Mathlib.Data.Rat.Defs
import Mathlib.Data.String.Basic

/-!
# The evidence graph

`graph.py` of `explore_evidence_composition` : evidence under its parents, and the order in which
`topological_order` lists it. A pass of its loop lists one node (`Listing.visit_sorting`), so a
pass for each node suffices, and all of them are listed if and only if there is no cycle
(`topologicalOrder_spec`).

`add` changes the graph before it looks for a cycle, so that a refused call leaves the cycle
behind : `throughout_kept_iff`.
-/

namespace GymAct

open TopologicalOrder

namespace EvidenceComposition

inductive RefusalCode
  | invalidSubject | cyclicEvidenceGraph | staleEvidence | divergentFrontier
  | independenceCollision | unsatisfiedDependency | invalidInterval | unreceiptedActuation
  | receiptDrift
  deriving DecidableEq, Repr

structure Refused where
  code : RefusalCode
  detail : String
  deriving DecidableEq, Repr

structure Subject where
  repo : String
  sha : String
  semanticDigest : String
  deriving DecidableEq, Repr

structure Interval where
  lower : ℚ
  upper : ℚ
  lower_nonneg : 0 ≤ lower
  lower_le : lower ≤ upper
  upper_le : upper ≤ 1
  deriving DecidableEq, Repr

inductive EvidenceKind
  | semantic | trace | calibration | methodology | runtime | security | authority | replay
  deriving DecidableEq, Repr

structure EvidenceNode where
  evidenceId : String
  subject : Subject
  kind : EvidenceKind
  generation : ℤ
  confidence : Interval
  implementationDigest : String
  modelDigest : String
  sourceDomain : String
  cost : ℚ := 0
  deriving DecidableEq, Repr

structure EvidenceGraph where
  nodes : AList fun _ : String => EvidenceNode := ∅
  parents : AList fun _ : String => Finset String := ∅
  deriving DecidableEq

/-! ## `topological_order` -/

/-- What the loop of `topological_order` carries. A node without parents is as one that
`incoming` lacks. -/
structure Listing where
  incoming : String → Finset String
  ready : List String
  ordered : List String := []

namespace Listing

/-- The body of the `for` loop : `current` is listed. -/
def release (current : String) (s : Listing) (child : String) : Listing :=
  if current ∈ s.incoming child then
    let incoming := Function.update s.incoming child ((s.incoming child).erase current)
    { s with
      incoming
      ready :=
        if incoming child = ∅ ∧ child ∉ s.ordered ∧ child ∉ s.ready then
          (s.ready ++ [child]).insertionSort (· ≤ ·)
        else s.ready }
  else s

/-- The body of the `while` loop, `children` being the sorted nodes. -/
def visit (children : List String) (s : Listing) : Listing :=
  match s.ready with
  | [] => s
  | current :: ready =>
    children.foldl (release current) { s with ready, ordered := s.ordered ++ [current] }

/-- The `while` loop, which each pass shortens by a node. -/
def loop (children : List String) : ℕ → Listing → Listing
  | 0, s => s
  | passes + 1, s => if s.ready = [] then s else loop children passes (s.visit children)

end Listing

namespace EvidenceGraph

variable (G : EvidenceGraph)

def parentsOf (id : String) : Finset String := (G.parents.lookup id).getD ∅

/-- `sorted(self.nodes)`. -/
def sortedNodes : List String := G.nodes.keys.insertionSort (· ≤ ·)

/-- `topological_order`. -/
def topologicalOrder : Except Refused (List String) :=
  let s := Listing.loop G.sortedNodes G.nodes.keys.length
    { incoming := G.parentsOf, ready := G.sortedNodes.filter fun key => G.parentsOf key = ∅ }
  if s.ordered.length ≠ G.nodes.keys.length then
    .error ⟨.cyclicEvidenceGraph, "evidence graph contains a cycle"⟩
  else .ok s.ordered

/-- `add` : what it raises, and the graph it leaves. -/
def add (node : EvidenceNode) (parents : List String) : Except Refused Unit × EvidenceGraph :=
  if ∃ parent ∈ parents, parent ∉ G.nodes then
    (.error ⟨.unsatisfiedDependency, "parent evidence missing"⟩, G)
  else
    let G' : EvidenceGraph :=
      { nodes := G.nodes.insert node.evidenceId node
        parents := G.parents.insert node.evidenceId parents.toFinset }
    (G'.topologicalOrder.map fun _ => (), G')

/-! ## What the graph says -/

/-- `a` is a parent of `b`. -/
def Parent (a b : String) : Prop := a ∈ G.parentsOf b

def Acyclic : Prop := ∀ id, ¬Relation.TransGen G.Parent id id

/-- The nodes have parents, which are nodes. -/
structure Closed : Prop where
  mem_iff : ∀ id, id ∈ G.nodes ↔ id ∈ G.parents
  parent_mem : ∀ a b, G.Parent a b → a ∈ G.nodes

/-- Every node once, with its parents before it. -/
structure Orders (order : List String) : Prop where
  nodup : order.Nodup
  mem_iff : ∀ id, id ∈ order ↔ id ∈ G.nodes
  parents_before : ∀ earlier id later, order = earlier ++ id :: later →
    ∀ parent, G.Parent parent id → parent ∈ earlier

variable {G}

theorem Closed.child_mem (h : G.Closed) {a b : String} (hab : G.Parent a b) : b ∈ G.nodes := by
  rw [h.mem_iff, ← AList.lookup_isSome]
  unfold Parent parentsOf at hab
  cases hb : G.parents.lookup b with
  | none => simp [hb] at hab
  | some parents => rfl

theorem mem_sortedNodes {id : String} : id ∈ G.sortedNodes ↔ id ∈ G.nodes := by
  rw [sortedNodes, List.mem_insertionSort, AList.mem_keys]

theorem nodup_sortedNodes : G.sortedNodes.Nodup :=
  (List.perm_insertionSort _ _).nodup_iff.mpr G.nodes.keys_nodup

theorem closed_empty : ({} : EvidenceGraph).Closed :=
  ⟨fun _ => Iff.rfl, fun a _ h => (Finset.notMem_empty a h).elim⟩

theorem acyclic_empty : ({} : EvidenceGraph).Acyclic := by
  intro id h
  obtain ⟨a, -, ha⟩ := Relation.TransGen.tail'_iff.mp h
  exact Finset.notMem_empty a ha

end EvidenceGraph

/-! ## A pass of the loop -/

namespace Listing

variable {current : String} {s : Listing}

/-- `current` is taken from the children, and those it leaves without parents are ready. -/
structure Released (current : String) (children : List String) (s s' : Listing) : Prop where
  ordered : s'.ordered = s.ordered
  incoming : ∀ b, s'.incoming b =
    if b ∈ children then (s.incoming b).erase current else s.incoming b
  nodup : s.ready.Nodup → s'.ready.Nodup
  mem_ready : ∀ b, b ∈ s'.ready ↔ b ∈ s.ready ∨ b ∈ children ∧ current ∈ s.incoming b ∧
    (s.incoming b).erase current = ∅ ∧ b ∉ s.ordered

theorem released_singleton (child : String) :
    Released current [child] s (s.release current child) := by
  unfold release
  by_cases hmem : current ∈ s.incoming child
  · rw [if_pos hmem]
    simp only [Function.update_self]
    refine ⟨rfl, fun b => ?_, fun hnodup => ?_, fun b => ?_⟩
    · by_cases hb : b = child
      · subst hb
        simp
      · simp [hb]
    · dsimp only
      split
      · next hready =>
        refine (List.perm_insertionSort _ _).nodup_iff.mpr (List.nodup_append.mpr
          ⟨hnodup, List.nodup_singleton child, ?_⟩)
        rintro b hb c hc rfl
        exact hready.2.2 (List.mem_singleton.mp hc ▸ hb)
      · exact hnodup
    · dsimp only
      split
      · next hready =>
        rw [List.mem_insertionSort, List.mem_append]
        refine or_congr_right ⟨fun hb => ?_, And.left⟩
        obtain rfl := List.mem_singleton.mp hb
        exact ⟨hb, hmem, hready.1, hready.2.1⟩
      · next hready =>
        refine ⟨Or.inl, fun hb => hb.elim id ?_⟩
        rintro ⟨hb, -, hempty, hout⟩
        obtain rfl := List.mem_singleton.mp hb
        by_contra hb'
        exact hready ⟨hempty, hout, hb'⟩
  · rw [if_neg hmem]
    refine ⟨rfl, fun b => ?_, id, fun b => ?_⟩
    · by_cases hb : b = child
      · subst hb
        simp [Finset.erase_eq_of_notMem hmem]
      · simp [hb]
    · refine ⟨Or.inl, fun hb => hb.elim id ?_⟩
      rintro ⟨hb, hcurrent, -⟩
      exact (hmem (List.mem_singleton.mp hb ▸ hcurrent)).elim

theorem Released.trans {child : String} {children : List String} {s₁ s₂ : Listing}
    (h : Released current [child] s s₁) (h' : Released current children s₁ s₂)
    (hnew : child ∉ children) : Released current (child :: children) s s₂ where
  ordered := h'.ordered.trans h.ordered
  nodup := fun hnodup => h'.nodup (h.nodup hnodup)
  incoming := fun b => by
    rw [h'.incoming, h.incoming]
    by_cases hb : b = child
    · subst hb
      simp [hnew]
    · simp [hb]
  mem_ready := fun b => by
    rw [h'.mem_ready, h.mem_ready, h.incoming, h.ordered]
    by_cases hb : b = child
    · subst hb
      simp [hnew]
    · simp [hb]

theorem released_foldl : ∀ {children : List String}, children.Nodup → ∀ s : Listing,
    Released current children s (children.foldl (release current) s)
  | [], _, s => ⟨rfl, fun _ => rfl, id, fun b => by simp⟩
  | child :: _, hnodup, s =>
    have h := List.nodup_cons.mp hnodup
    (released_singleton child).trans (released_foldl h.2 (s.release current child)) h.1

/-- What the loop keeps : the parents that are not listed are those that are incoming. -/
structure Lists (G : EvidenceGraph) (s : Listing) : Prop where
  sorting : Sorting G.Parent G.nodes.keys.toFinset s.ordered s.ready
  incoming : ∀ b, s.incoming b = (G.parentsOf b).filter (· ∉ s.ordered)
  cycleFree : ∀ a ∈ s.ordered, ¬Relation.TransGen G.Parent a a

variable {G : EvidenceGraph}

theorem lists_init : Lists G
    { incoming := G.parentsOf
      ready := G.sortedNodes.filter fun key => G.parentsOf key = ∅ } where
  sorting := by
    refine sorting_init (EvidenceGraph.nodup_sortedNodes.filter _) fun a => ?_
    simp [EvidenceGraph.mem_sortedNodes, AList.mem_keys, EvidenceGraph.Parent,
      Finset.eq_empty_iff_forall_notMem]
  incoming := fun b => by simp
  cycleFree := by simp

/-- A pass lists the first that is ready. -/
theorem Lists.visit (hG : G.Closed) (h : Lists G s) {ready : List String} (hready : s.ready = current :: ready) :
    Lists G (s.visit G.sortedNodes) ∧
      (s.visit G.sortedNodes).ordered = s.ordered ++ [current] := by
  have hsorting := h.sorting
  rw [hready] at hsorting
  obtain ⟨-, hnodup, hdisjoint⟩ := List.nodup_append.mp hsorting.nodup
  obtain ⟨hcurrent, hnodup⟩ := List.nodup_cons.mp hnodup
  have hvisit : s.visit G.sortedNodes = G.sortedNodes.foldl (release current)
      { s with ready, ordered := s.ordered ++ [current] } := by
    rw [Listing.visit, hready]
  have hreleased : Released current G.sortedNodes
      { s with ready, ordered := s.ordered ++ [current] } (s.visit G.sortedNodes) :=
    hvisit ▸ released_foldl EvidenceGraph.nodup_sortedNodes _
  have hordered : (s.visit G.sortedNodes).ordered = s.ordered ++ [current] := hreleased.ordered
  -- of a node that was neither listed nor ready, only `current` was left
  have hlast : ∀ b ∈ G.nodes, b ∉ s.ordered ++ current :: ready →
      (∀ c, G.Parent c b → c ∈ s.ordered ++ [current]) → current ∈ s.incoming b := by
    intro b hb hnew hparents
    by_contra hcurrent'
    refine hnew ((hsorting.mem_iff b).mpr ⟨List.mem_toFinset.mpr hb, fun c hc => ?_⟩)
    by_contra hout
    have hc' : c = current := by simpa [hout] using hparents c hc
    subst hc'
    rw [h.incoming] at hcurrent'
    exact hcurrent' (Finset.mem_filter.mpr ⟨hc, hout⟩)
  refine ⟨⟨?_, fun b => ?_, fun a ha => ?_⟩, hordered⟩
  · rw [hordered]
    refine hsorting.step List.mem_cons_self (hreleased.nodup hnodup) fun b => ?_
    rw [hreleased.mem_ready, EvidenceGraph.mem_sortedNodes, List.mem_toFinset, ← AList.mem_keys]
    have hempty : (s.incoming b).erase current = ∅ ↔
        ∀ c, G.Parent c b → c ∈ s.ordered ++ [current] := by
      simp only [Finset.eq_empty_iff_forall_notMem, Finset.mem_erase, h.incoming, Finset.mem_filter,
        List.mem_append, List.mem_singleton, EvidenceGraph.Parent]
      exact forall_congr' fun c => by tauto
    by_cases hb : b ∈ ready
    · have hne : b ≠ current := fun heq => hcurrent (heq ▸ hb)
      exact iff_of_true (Or.inl hb) (Or.inl ⟨List.mem_cons_of_mem _ hb, hne⟩)
    · have hnew : b ∉ s.ordered ++ [current] ↔ b ∉ s.ordered ++ current :: ready := by
        simp [hb]
      have hold : ¬(b ∈ current :: ready ∧ b ≠ current) := by
        simp [hb]
      simp only [hb, hold, false_or, hempty, hnew]
      constructor
      · rintro ⟨hnode, -, hparents, hout⟩
        exact ⟨hout, hnode, hparents⟩
      · rintro ⟨hout, hnode, hparents⟩
        exact ⟨hnode, hlast b hnode hout hparents, hparents, hout⟩
  · rw [hreleased.incoming, hordered]
    simp only [h.incoming, EvidenceGraph.mem_sortedNodes]
    ext c
    split
    · simp only [Finset.mem_erase, Finset.mem_filter, List.mem_append, List.mem_singleton]
      tauto
    · next hb =>
      have hnone : c ∉ G.parentsOf b := fun hc => hb (hG.child_mem hc)
      simp [hnone]
  · rw [hordered] at ha
    rcases List.mem_append.mp ha with ha | ha
    · exact h.cycleFree a ha
    · obtain rfl := List.mem_singleton.mp ha
      exact hsorting.not_cycle_of_ready List.mem_cons_self

theorem loop_lists (hG : G.Closed) : ∀ {passes : ℕ} {s : Listing}, Lists G s →
    G.nodes.keys.length ≤ passes + s.ordered.length →
      Lists G (loop G.sortedNodes passes s) ∧ (loop G.sortedNodes passes s).ready = []
  | 0, s, h, hpasses => by
    have hle := h.sorting.length_le
    rw [List.toFinset_card_of_nodup G.nodes.keys_nodup] at hle
    have hready : s.ready = [] := List.eq_nil_of_length_eq_zero (by omega)
    exact ⟨h, hready⟩
  | passes + 1, s, h, hpasses => by
    unfold loop
    split
    · next hready => exact ⟨h, hready⟩
    · next hready =>
      obtain ⟨current, ready, hcons⟩ := List.exists_cons_of_ne_nil hready
      obtain ⟨hvisit, hordered⟩ := h.visit hG hcons
      refine loop_lists hG hvisit ?_
      rw [hordered, List.length_append, List.length_singleton]
      omega

end Listing

/-! ## The order, and what `add` keeps -/

namespace EvidenceGraph

variable {G : EvidenceGraph}

/-- The nodes are listed in an order of the graph, or there is a cycle. -/
theorem topologicalOrder_spec (hG : G.Closed) :
    (G.Acyclic ∧ ∃ order, G.topologicalOrder = .ok order ∧ G.Orders order) ∨
      (¬G.Acyclic ∧ G.topologicalOrder =
        .error ⟨.cyclicEvidenceGraph, "evidence graph contains a cycle"⟩) := by
  obtain ⟨hlists, hready⟩ := Listing.loop_lists hG Listing.lists_init (Nat.le_add_right _ _)
  unfold topologicalOrder
  generalize Listing.loop G.sortedNodes G.nodes.keys.length
    { incoming := G.parentsOf
      ready := G.sortedNodes.filter fun key => G.parentsOf key = ∅ } = s at hlists hready
  have hsorting := hlists.sorting
  rw [hready] at hsorting
  have hmem : ∀ id, id ∈ s.ordered → id ∈ G.nodes := fun id hid =>
    AList.mem_keys.mpr (List.mem_toFinset.mp (hsorting.mem_nodes hid))
  have hnodup : s.ordered.Nodup := by simpa using hsorting.nodup
  by_cases hG' : G.Acyclic
  · have hall : ∀ id, id ∈ G.nodes → id ∈ s.ordered := fun id hid =>
      hsorting.mem_of_done hG' (fun a b hab => List.mem_toFinset.mpr
        (AList.mem_keys.mp (hG.parent_mem a b hab))) (List.mem_toFinset.mpr (AList.mem_keys.mp hid))
    have hperm : s.ordered.Perm G.nodes.keys :=
      (List.perm_ext_iff_of_nodup hnodup G.nodes.keys_nodup).mpr fun id =>
        ⟨fun hid => AList.mem_keys.mp (hmem id hid), fun hid => hall id (AList.mem_keys.mpr hid)⟩
    refine Or.inl ⟨hG', s.ordered, if_neg (not_not.mpr hperm.length_eq), hnodup,
      fun id => ⟨hmem id, hall id⟩, fun earlier id later hsplit parent hparent => ?_⟩
    exact hsorting.mem_of_split hG' hsplit hparent
  · refine Or.inr ⟨hG', if_pos fun hlength => hG' fun id hcycle => ?_⟩
    -- all would be listed, and what is listed is on no cycle
    have hperm : s.ordered.Perm G.nodes.keys :=
      (hnodup.subperm fun id hid => AList.mem_keys.mp (hmem id hid)).perm_of_length_le hlength.ge
    obtain ⟨b, -, hb⟩ := Relation.TransGen.tail'_iff.mp hcycle
    exact hlists.cycleFree id (hperm.mem_iff.mpr (AList.mem_keys.mp (hG.child_mem hb))) hcycle

/-- The graph with the node under its parents. -/
def insertNode (G : EvidenceGraph) (node : EvidenceNode) (parents : List String) : EvidenceGraph where
  nodes := G.nodes.insert node.evidenceId node
  parents := G.parents.insert node.evidenceId parents.toFinset

variable {node : EvidenceNode} {parents : List String}

theorem add_of_missing (h : ∃ parent ∈ parents, parent ∉ G.nodes) :
    G.add node parents = (.error ⟨.unsatisfiedDependency, "parent evidence missing"⟩, G) := if_pos h

theorem add_of_known (h : ∀ parent ∈ parents, parent ∈ G.nodes) :
    G.add node parents =
      ((G.insertNode node parents).topologicalOrder.map fun _ => (), G.insertNode node parents) :=
  if_neg (by simpa using h)

theorem replaces_insertNode : Replaces G.Parent (G.insertNode node parents).Parent node.evidenceId
    (· ∈ parents) where
  other := fun h => by simp only [Parent, parentsOf, insertNode, AList.lookup_insert_ne h]
  at_iff := by simp [Parent, parentsOf, insertNode]

theorem Closed.insertNode (hG : G.Closed) (h : ∀ parent ∈ parents, parent ∈ G.nodes) :
    (G.insertNode node parents).Closed where
  mem_iff := fun id => by simp only [EvidenceGraph.insertNode, AList.mem_insert, hG.mem_iff]
  parent_mem := fun a b hab => by
    refine (AList.mem_insert _).mpr (Or.inr ?_)
    by_cases hb : b = node.evidenceId
    · subst hb
      exact h a (replaces_insertNode.at_iff.mp hab)
    · exact hG.parent_mem a b ((replaces_insertNode.other hb).mp hab)

/-- What a call of `add` keeps. -/
structure Kept (G : EvidenceGraph) (node : EvidenceNode) (parents : List String) : Prop where
  acyclic : (G.add node parents).2.Acyclic
  closed : (G.add node parents).2.Closed
  unchanged : ∀ e, (G.add node parents).1 = .error e → (G.add node parents).2 = G
  ordered : ∃ order, (G.add node parents).2.topologicalOrder = .ok order ∧
    (G.add node parents).2.Orders order

/-- The parents are known, and one of them is the node or comes after it. -/
def ClosesCycle (G : EvidenceGraph) (node : EvidenceNode) (parents : List String) : Prop :=
  (∀ parent ∈ parents, parent ∈ G.nodes) ∧
    ∃ parent ∈ parents, Relation.ReflTransGen G.Parent node.evidenceId parent

theorem order_of_acyclic (hG : G.Closed) (hacyclic : G.Acyclic) :
    ∃ order, G.topologicalOrder = .ok order ∧ G.Orders order :=
  (topologicalOrder_spec hG).elim And.right fun h => (h.1 hacyclic).elim

theorem add_closed (hG : G.Closed) : (G.add node parents).2.Closed := by
  by_cases h : ∀ parent ∈ parents, parent ∈ G.nodes
  · rw [add_of_known h]
    exact hG.insertNode h
  · rw [add_of_missing (by simpa using h)]
    exact hG

theorem kept_iff (hG : G.Closed) (hacyclic : G.Acyclic) :
    Kept G node parents ↔ ¬ClosesCycle G node parents := by
  by_cases h : ∀ parent ∈ parents, parent ∈ G.nodes
  · have hiff : (G.insertNode node parents).Acyclic ↔ ¬ClosesCycle G node parents := by
      rw [ClosesCycle, not_and]
      refine (replaces_insertNode.acyclic_iff hacyclic).trans
        ⟨fun hP _ ⟨parent, hparent, hafter⟩ => hP parent hparent hafter,
          fun hP parent hparent hafter => hP h ⟨parent, hparent, hafter⟩⟩
    have hadd : G.add node parents = _ := add_of_known h
    constructor
    · intro hkept
      have hinserted := hkept.acyclic
      rw [hadd] at hinserted
      exact hiff.mp hinserted
    · intro hcloses
      obtain ⟨order, horder, horders⟩ :=
        order_of_acyclic (hG.insertNode h) (hiff.mpr hcloses)
      refine ⟨?_, add_closed hG, ?_, ?_⟩ <;> rw [hadd]
      · exact hiff.mpr hcloses
      · intro e he
        simp [horder, Except.map] at he
      · exact ⟨order, horder, horders⟩
  · have hadd : G.add node parents = _ := add_of_missing (by simpa using h)
    refine iff_of_true ⟨?_, add_closed hG, ?_, ?_⟩ fun hcloses => h hcloses.1 <;> rw [hadd]
    · exact hacyclic
    · exact fun _ _ => rfl
    · exact order_of_acyclic hG hacyclic

/-- `P` holds of each call, in the graph that the calls before it left. -/
def Throughout (P : EvidenceGraph → EvidenceNode → List String → Prop) :
    EvidenceGraph → List (EvidenceNode × List String) → Prop
  | _, [] => True
  | G, (node, parents) :: calls => P G node parents ∧ Throughout P (G.add node parents).2 calls

theorem throughout_congr {P : EvidenceGraph → EvidenceNode → List String → Prop} :
    ∀ {G : EvidenceGraph} {calls : List (EvidenceNode × List String)}, G.Closed → G.Acyclic →
      (∀ G node parents, G.Closed → G.Acyclic → (Kept G node parents ↔ P G node parents)) →
        (Throughout Kept G calls ↔ Throughout P G calls)
  | _, [], _, _, _ => Iff.rfl
  | G, (node, parents) :: calls, hG, hacyclic, hP => by
    have hhead := hP G node parents hG hacyclic
    constructor
    · rintro ⟨hkept, hcalls⟩
      exact ⟨hhead.mp hkept, (throughout_congr hkept.closed hkept.acyclic hP).mp hcalls⟩
    · rintro ⟨hhead', hcalls⟩
      have hkept := hhead.mpr hhead'
      exact ⟨hkept, (throughout_congr hkept.closed hkept.acyclic hP).mpr hcalls⟩

/-- From the empty graph on, each call leaves the graph acyclic, closed and listed in order, and
unchanged if it raises, if and only if none puts a node under itself or under what comes after
it. -/
theorem throughout_kept_iff (calls : List (EvidenceNode × List String)) :
    Throughout Kept {} calls ↔
      Throughout (fun G node parents => ¬ClosesCycle G node parents) {} calls :=
  throughout_congr closed_empty acyclic_empty fun _ _ _ => kept_iff

/-- Evidence of one subject, apart from its id. -/
def traceEvidence (evidenceId : String) : EvidenceNode where
  evidenceId
  subject := ⟨"owner/repo", "a", "b"⟩
  kind := .trace
  generation := 1
  confidence := ⟨0, 1, by decide, by decide, by decide⟩
  implementationDigest := "implementation"
  modelDigest := "model"
  sourceDomain := "host"

/-- A node and a child of it. -/
def rootAndChild : EvidenceGraph :=
  (insertNode {} (traceEvidence "root") []).insertNode (traceEvidence "child") ["root"]

/-- The node is added again, under its child : the call raises, and the cycle stays. -/
theorem not_kept_of_readded :
    let calls := [(traceEvidence "root", []), (traceEvidence "child", ["root"]),
      (traceEvidence "root", ["child"])]
    let cyclic : Refused := ⟨.cyclicEvidenceGraph, "evidence graph contains a cycle"⟩
    let again := rootAndChild.add (traceEvidence "root") ["child"]
    again.1 = .error cyclic ∧ again.2 ≠ rootAndChild ∧ again.2.topologicalOrder = .error cyclic ∧
      ¬Throughout Kept {} calls := by
  intro calls cyclic again
  have hroot : add {} (traceEvidence "root") [] = _ := add_of_known (by simp)
  have hchild : (insertNode {} (traceEvidence "root") []).add (traceEvidence "child") ["root"] = _ :=
    add_of_known fun parent hparent => by
      obtain rfl := List.mem_singleton.mp hparent
      exact (AList.mem_insert _).mpr (Or.inl rfl)
  have hknown : ∀ parent ∈ ["child"], parent ∈ rootAndChild.nodes := fun parent hparent => by
    obtain rfl := List.mem_singleton.mp hparent
    exact (AList.mem_insert _).mpr (Or.inl rfl)
  have hagain : again = _ := add_of_known hknown
  have hclosed : rootAndChild.Closed := by
    have h : (add (add {} (traceEvidence "root") []).2 (traceEvidence "child") ["root"]).2.Closed :=
      add_closed (add_closed closed_empty)
    rwa [hroot, hchild] at h
  have hback : (rootAndChild.insertNode (traceEvidence "root") ["child"]).Parent "child" "root" := by
    simp [Parent, parentsOf, insertNode, traceEvidence]
  have hforth : (rootAndChild.insertNode (traceEvidence "root") ["child"]).Parent "root" "child" := by
    simp [Parent, parentsOf, rootAndChild, insertNode, traceEvidence]
  have hcyclic : ¬(rootAndChild.insertNode (traceEvidence "root") ["child"]).Acyclic :=
    fun h => h "root" (.tail (.single hforth) hback)
  have horder : (rootAndChild.insertNode (traceEvidence "root") ["child"]).topologicalOrder =
      .error cyclic :=
    ((topologicalOrder_spec (hclosed.insertNode hknown)).resolve_left fun h => hcyclic h.1).2
  rw [hagain, horder]
  refine ⟨rfl, fun h => ?_, horder, fun h => hcyclic ?_⟩
  · have hsame : rootAndChild.insertNode (traceEvidence "root") ["child"] = rootAndChild := h
    have hnone : rootAndChild.parentsOf "root" = ∅ := rfl
    rw [hsame, Parent, hnone] at hback
    exact Finset.notMem_empty _ hback
  · have hkept := h.2.2.1.acyclic
    rw [hroot, hchild] at hkept
    change again.2.Acyclic at hkept
    rwa [hagain] at hkept

end EvidenceGraph

end EvidenceComposition

end GymAct
