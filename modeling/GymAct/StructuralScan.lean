import GymAct.GraphUnion
import GymAct.Maximal

/-!
# The structural scan, and the topology under updates

`structural_scan.py` : counts over a graph and a depth-first search for a cycle, which looks every
node it reaches up among the objects. The recursion of `_has_cycle` takes a depth; one more
than there are objects suffices (`hasCycle_returns`).

A graph is obtained (`Obtained`) from validated graphs by `with_object`, `with_morphism` and
`union`. `with_morphism` copies the graph without `validate_topology`, so it is the one
operation after which an endpoint can be missing (`withMorphism_valid_iff`).
`topology_kept_iff_connected` : where each added morphism has its endpoints in the graph, every
graph obtained is valid, and neither the scan nor the explorer raises `KeyError` on it.
-/

namespace GymAct

/-! ## `structural_scan.py` -/

structure StructuralSignature where
  graphDigest : String
  objectCounts : List (String × ℕ)
  morphismCounts : List (String × ℕ)
  phaseCounts : List (String × ℕ)
  standingCounts : List (String × ℕ)
  reversibleEdges : ℕ
  compensatableEdges : ℕ
  unknownReversalEdges : ℕ
  doEdges : ℕ
  branchingObjects : ℕ
  maxOutDegree : ℕ
  cyclic : Bool
  structuralKey : String
  deriving DecidableEq, Repr

/-- What the search of `_has_cycle` carries. -/
structure CycleSearch where
  visiting : List String := []
  visited : List String := []
  deriving DecidableEq, Repr

/-- `none` is a search that goes too deep. -/
abbrev SearchOutcome := Option (Except PyError (Bool × CycleSearch))

namespace StructuralScan

/-- `dict(sorted(Counter(names).items()))`. -/
def counter (names : List String) : List (String × ℕ) :=
  (names.dedup.insertionSort (· ≤ ·)).map fun name => (name, names.count name)

def counts (items : List (String × ℕ)) : Value := .dict (items.map fun item => (item.1, .int item.2))

variable (g : PossibilityGraph)

/-- `adjacency[node]`. -/
def adjacency (node : String) : Except PyError (List String) :=
  if node ∈ g.objects.map PossibilityObject.objectId then
    .ok ((g.outgoing node).map PossibilityMorphism.targetId)
  else .error ⟨"KeyError", node⟩

/-- A loop over nodes, left at the first that closes a cycle. -/
def visitAny (visit : String → CycleSearch → SearchOutcome) :
    List String → CycleSearch → SearchOutcome
  | [], s => some (.ok (false, s))
  | node :: nodes, s =>
    match visit node s with
    | some (.ok (false, s)) => visitAny visit nodes s
    | outcome => outcome

/-- `visit` of `_has_cycle`. -/
def visit : ℕ → String → CycleSearch → SearchOutcome
  | 0, _, _ => none
  | depth + 1, node, s =>
    if node ∈ s.visiting then some (.ok (true, s))
    else if node ∈ s.visited then some (.ok (false, s))
    else
      match adjacency g node with
      | .error e => some (.error e)
      | .ok targets =>
        match visitAny (visit depth) targets { s with visiting := node :: s.visiting } with
        | some (.ok (false, s)) =>
          some (.ok (false, { visiting := s.visiting.erase node, visited := node :: s.visited }))
        | outcome => outcome

/-- An object that is visited already is passed over. -/
def visitNew (depth : ℕ) (node : String) (s : CycleSearch) : SearchOutcome :=
  if node ∈ s.visited then some (.ok (false, s)) else visit g depth node s

/-- `_has_cycle`. -/
def hasCycle (depth : ℕ) : Option (Except PyError Bool) :=
  (visitAny (visitNew g depth) (g.objects.map PossibilityObject.objectId) {}).map
    fun outcome => outcome.map Prod.fst

/-- `structural_scan`. -/
def structuralScan (C : Canon) (depth : ℕ) : Option (Except PyError StructuralSignature) :=
  let objectCounts := counter (g.objects.map fun item => item.kind.value)
  let morphismCounts := counter (g.morphisms.map fun item => item.kind.value)
  let phaseCounts := counter (g.morphisms.map fun item => item.phase.value)
  let standingCounts := counter (g.morphisms.map fun item => item.standing.value)
  let outDegrees := g.objects.map fun item => (g.outgoing item.objectId).length
  let reversibleEdges := g.morphisms.countP fun item => item.reversal = .reversible
  let compensatableEdges := g.morphisms.countP fun item => item.reversal = .compensatable
  let unknownReversalEdges := g.morphisms.countP fun item => item.reversal = .unknown
  let doEdges := g.morphisms.countP fun item => item.phase = .do
  let branchingObjects := outDegrees.countP fun value => 1 < value
  let maxOutDegree := outDegrees.foldr max 0
  (hasCycle g depth).map fun outcome => do
    let cyclic ← outcome
    let payload : Value := .dict [("object_counts", counts objectCounts),
      ("morphism_counts", counts morphismCounts), ("phase_counts", counts phaseCounts),
      ("standing_counts", counts standingCounts), ("reversible_edges", .int reversibleEdges),
      ("compensatable_edges", .int compensatableEdges),
      ("unknown_reversal_edges", .int unknownReversalEdges), ("do_edges", .int doEdges),
      ("branching_objects", .int branchingObjects), ("max_out_degree", .int maxOutDegree),
      ("cyclic", .bool cyclic)]
    let graphDigest ← g.graphDigest C
    let structuralKey ← C.digest payload
    pure
      { graphDigest, objectCounts, morphismCounts, phaseCounts, standingCounts, reversibleEdges,
        compensatableEdges, unknownReversalEdges, doEdges, branchingObjects, maxOutDegree, cyclic,
        structuralKey }

/-! ## The search ends, and finds its nodes -/

variable {g}

/-- The search answers, and unless it found a cycle it leaves what is being visited as it was. -/
def Answers (outcome : SearchOutcome) (visiting : List String) : Prop :=
  ∃ found s, outcome = some (.ok (found, s)) ∧ (found = false → s.visiting = visiting)

theorem visitAny_answers {visit : String → CycleSearch → SearchOutcome} {visiting : List String} :
    ∀ {nodes : List String}, (∀ node ∈ nodes, ∀ s : CycleSearch, s.visiting = visiting →
      Answers (visit node s) visiting) → ∀ s : CycleSearch, s.visiting = visiting →
        Answers (visitAny visit nodes s) visiting
  | [], _, s, hs => ⟨false, s, rfl, fun _ => hs⟩
  | node :: nodes, hvisit, s, hs => by
    obtain ⟨found, s', hnode, hs'⟩ := hvisit node List.mem_cons_self s hs
    unfold visitAny
    rw [hnode]
    cases found with
    | true => exact ⟨true, s', rfl, nofun⟩
    | false =>
      exact visitAny_answers (fun n hn => hvisit n (List.mem_cons_of_mem _ hn)) s' (hs' rfl)

/-- The nodes under visit are distinct objects, so no branch is deeper than there are objects. -/
theorem visit_answers (hg : g.Valid) : ∀ {depth : ℕ} {node : String} {s : CycleSearch},
    node ∈ g.objects.map PossibilityObject.objectId → s.visiting.Nodup →
      s.visiting ⊆ g.objects.map PossibilityObject.objectId →
        g.objects.length < depth + s.visiting.length → Answers (visit g depth node s) s.visiting
  | 0, _, s, _, hnodup, hsub, hdepth => by
    have hle := (List.subperm_of_subset hnodup hsub).length_le
    rw [List.length_map] at hle
    omega
  | depth + 1, node, s, hnode, hnodup, hsub, hdepth => by
    unfold visit
    by_cases hvisiting : node ∈ s.visiting
    · rw [if_pos hvisiting]
      exact ⟨true, s, rfl, nofun⟩
    by_cases hvisited : node ∈ s.visited
    · rw [if_neg hvisiting, if_pos hvisited]
      exact ⟨false, s, rfl, fun _ => rfl⟩
    have hadjacent : adjacency g node =
        .ok ((g.outgoing node).map PossibilityMorphism.targetId) := if_pos hnode
    have htargets : ∀ target ∈ (g.outgoing node).map PossibilityMorphism.targetId,
        ∀ s' : CycleSearch, s'.visiting = node :: s.visiting →
          Answers (visit g depth target s') (node :: s.visiting) := by
      intro target htarget s' hs'
      obtain ⟨edge, hedge, rfl⟩ := List.mem_map.mp htarget
      have hknown := (hg.endpoints edge ((g.mem_outgoing).mp hedge).1).2
      rw [← hs']
      refine visit_answers hg hknown ?_ ?_ ?_
      · rw [hs']
        exact List.nodup_cons.mpr ⟨hvisiting, hnodup⟩
      · rw [hs']
        exact List.cons_subset.mpr ⟨hnode, hsub⟩
      · rw [hs', List.length_cons]
        omega
    obtain ⟨found, s', hloop, hs'⟩ :=
      visitAny_answers htargets { s with visiting := node :: s.visiting } rfl
    rw [if_neg hvisiting, if_neg hvisited, hadjacent]
    simp only [hloop]
    cases found with
    | true => exact ⟨true, s', rfl, nofun⟩
    | false => exact ⟨false, _, rfl, fun _ => by simp [hs' rfl]⟩

theorem hasCycle_returns (hg : g.Valid) {depth : ℕ} (hdepth : g.objects.length < depth) :
    ∃ cyclic, hasCycle g depth = some (.ok cyclic) := by
  obtain ⟨found, s, hs, -⟩ : Answers (visitAny (visitNew g depth)
      (g.objects.map PossibilityObject.objectId) {}) [] := by
    refine visitAny_answers (fun node hnode s hs => ?_) {} rfl
    unfold visitNew
    split
    · exact ⟨false, s, rfl, fun _ => hs⟩
    · rw [← hs]
      exact visit_answers hg hnode (by simp [hs]) (by simp [hs]) (by omega)
  exact ⟨found, by rw [hasCycle, hs]; rfl⟩

end StructuralScan

/-! ## What raises `KeyError` -/

/-- The call does not raise `KeyError`. -/
def NoKeyError {α : Type} (x : Except PyError α) : Prop := ∀ e, x = .error e → e.type ≠ "KeyError"

/-- `rfc8785.dumps` raises no `KeyError`. -/
def Canon.NoKeyError (C : Canon) : Prop := ∀ v, GymAct.NoKeyError (C.dumps v)

namespace NoKeyError

theorem ok {α : Type} (a : α) : NoKeyError (.ok a : Except PyError α) := nofun

theorem bind {α β : Type} {x : Except PyError α} {f : α → Except PyError β} (hx : NoKeyError x)
    (hf : ∀ a, x = .ok a → NoKeyError (f a)) : NoKeyError (x >>= f) := by
  cases x with
  | error e => exact fun e' h => hx e' (by cases h; rfl)
  | ok a => exact hf a rfl

theorem mapM {α β : Type} {f : α → Except PyError β} (hf : ∀ a, NoKeyError (f a)) :
    ∀ l : List α, NoKeyError (l.mapM f)
  | [] => ok _
  | a :: l => by
    rw [List.mapM_cons]
    exact (hf a).bind fun b _ => (mapM hf l).bind fun bs _ => ok _

theorem digest {C : Canon} (hC : C.NoKeyError) (v : Value) : NoKeyError (C.digest v) := by
  intro e h
  unfold Canon.digest Canon.canonicalBytes at h
  cases hv : C.dumps v with
  | ok b => simp [hv, Except.map] at h
  | error e' =>
    obtain rfl : e' = e := by simpa [hv, Except.map] using h
    exact hC v e' hv

theorem readConsequenceBinding (attributes : Payload) :
    NoKeyError (GymAct.readConsequenceBinding attributes) := by
  have hconstruct : ∀ b : ConsequenceBinding, NoKeyError b.construct := by
    intro b e h
    unfold ConsequenceBinding.construct at h
    split at h <;> cases h
    decide
  have hvalidate : ∀ raw, NoKeyError (ConsequenceBinding.modelValidate raw) := by
    intro raw e h
    unfold ConsequenceBinding.modelValidate at h
    split at h
    · split at h
      · split at h
        · exact hconstruct _ e h
        · cases h
          decide
      · cases h
        decide
    · cases h
      decide
  unfold GymAct.readConsequenceBinding
  split
  · exact ok _
  · exact ok _
  · exact (hvalidate _).bind fun b _ => ok _

theorem evaluateMorphism (edge : PossibilityMorphism) (ctx : AdmissionContext) :
    NoKeyError (GymAct.evaluateMorphism edge ctx) := by
  unfold GymAct.evaluateMorphism
  dsimp only
  split_ifs
  all_goals try exact ok _
  refine (readConsequenceBinding _).bind fun binding _ => ?_
  cases binding <;> exact ok _

section Explore

variable {C : Canon} {graph : PossibilityGraph} {ctx : AdmissionContext}
  {limits : ExplorationBounds} {path : PossibilityPath} {edge : PossibilityMorphism}

theorem considerEdge (hC : C.NoKeyError) (s : ExplorerState) :
    NoKeyError (GymAct.considerEdge C ctx limits path edge s) := by
  refine (evaluateMorphism edge ctx).bind fun admission _ => ?_
  split
  · exact (digest hC _).bind fun _ _ => ok _
  split
  · exact ok _
  split
  case isTrue hreversal =>
    -- The one reversal the fence does not know is excluded here.
    cases hr : edge.reversal with
    | reversible => exact absurd hr hreversal
    | _ => exact ok _
  dsimp only
  split
  · exact ok _
  split <;> exact ok _

theorem considerEdges (hC : C.NoKeyError) : ∀ (edges : List PossibilityMorphism) (s : ExplorerState),
    NoKeyError (GymAct.considerEdges C ctx limits path edges s)
  | [], s => ok _
  | edge :: edges, s => by
    refine (considerEdge hC s).bind fun r _ => ?_
    obtain ⟨s₁, stop⟩ := r
    cases stop with
    | true => exact ok _
    | false => exact considerEdges hC edges s₁

theorem exploreLoop (hC : C.NoKeyError) : ∀ (fuel : ℕ) {s : ExplorerState}
    {outcome : Except PyError ExplorerState},
      GymAct.exploreLoop C graph ctx limits fuel s = some outcome → NoKeyError outcome
  | 0, s, outcome, h => by cases h
  | fuel + 1, s, outcome, h => by
    unfold GymAct.exploreLoop at h
    split at h
    · cases h
      exact ok _
    case h_2 path stack hstack =>
      have hvisit : NoKeyError (visit C graph ctx limits path { s with stack }) := by
        unfold visit
        dsimp only
        split
        · exact ok _
        · exact considerEdges hC _ _
      split at h
      case h_1 e he =>
        cases h
        exact he ▸ hvisit
      case h_2 s₁ _ => exact exploreLoop hC fuel h

theorem explorationResult (hC : C.NoKeyError) (startIds : List String) (s : ExplorerState) :
    NoKeyError (GymAct.explorationResult C graph startIds s) :=
  (digest hC _).bind fun _ _ => (mapM (fun _ => digest hC _) _).bind fun _ _ => ok _

/-- The explorer looks up the starts, and nothing else. -/
theorem exploreWithin (hC : C.NoKeyError) {startIds : List String} {fuel : ℕ}
    (hstarts : ∀ objectId ∈ startIds, objectId ∈ graph.objects.map PossibilityObject.objectId)
    {outcome : Except PyError ExplorationResult}
    (h : GymAct.exploreWithin C graph ctx limits startIds fuel = some outcome) :
    NoKeyError outcome := by
  obtain ⟨objects, hobjects⟩ := mapM_object_ok hstarts
  simp only [GymAct.exploreWithin, hobjects] at h
  obtain ⟨last, hlast, rfl⟩ := Option.map_eq_some_iff.mp h
  exact (exploreLoop hC fuel hlast).bind fun s _ => explorationResult hC startIds s

end Explore

theorem structuralScan {C : Canon} (hC : C.NoKeyError) {g : PossibilityGraph} (hg : g.Valid)
    {depth : ℕ} (hdepth : g.objects.length < depth) :
    ∃ outcome, StructuralScan.structuralScan g C depth = some outcome ∧ NoKeyError outcome := by
  obtain ⟨cyclic, hcyclic⟩ := StructuralScan.hasCycle_returns hg hdepth
  refine ⟨_, by rw [StructuralScan.structuralScan, hcyclic]; rfl, ?_⟩
  exact (ok cyclic).bind fun _ _ => (digest hC _).bind fun _ _ => (digest hC _).bind fun _ _ => ok _

end NoKeyError

namespace Value

mutual

theorem render_noKeyError : ∀ v : Value, NoKeyError v.render
  | .null | .bool _ | .str _ | .float (.finite _) => by simp [render, NoKeyError]
  | .int n => by
    rw [render]
    split
    · exact .ok _
    · simp [NoKeyError]
  | .float .inf | .float .negInf | .float .nan => by simp [render, NoKeyError]
  | .list items => by
    have h := renderList_noKeyError items
    rw [render]
    cases hi : renderList items with
    | ok ts => exact .ok _
    | error e => simpa [hi, Except.map, NoKeyError] using h
  | .dict items => by
    have h := renderItems_noKeyError items
    rw [render]
    cases hi : renderItems items with
    | ok ts => exact .ok _
    | error e => simpa [hi, Except.map, NoKeyError] using h

theorem renderList_noKeyError : ∀ items : List Value, NoKeyError (renderList items)
  | [] => by simp [renderList, NoKeyError]
  | v :: vs => by
    have hv := render_noKeyError v
    have hvs := renderList_noKeyError vs
    rw [renderList]
    cases hr : v.render with
    | error e => simpa [hr, NoKeyError] using hv
    | ok t =>
      cases hrs : renderList vs with
      | error e => simpa [hrs, NoKeyError] using hvs
      | ok ts => exact .ok _

theorem renderItems_noKeyError : ∀ items : List (String × Value), NoKeyError (renderItems items)
  | [] => by simp [renderItems, NoKeyError]
  | (k, v) :: vs => by
    have hv := render_noKeyError v
    have hvs := renderItems_noKeyError vs
    rw [renderItems]
    cases hr : v.render with
    | error e => simpa [hr, NoKeyError] using hv
    | ok t =>
      cases hrs : renderItems vs with
      | error e => simpa [hrs, NoKeyError] using hvs
      | ok ts => exact .ok _

end

end Value

theorem Canon.reference_noKeyError : Canon.reference.NoKeyError := by
  intro v e h
  unfold reference at h
  cases hv : v.render with
  | ok t => simp [hv, Except.map] at h
  | error e' =>
    obtain rfl : e' = e := by simpa [hv, Except.map] using h
    exact Value.render_noKeyError v e' hv

/-! ## The graphs that updates return -/

namespace PossibilityGraph

/-- The graphs that `with_object`, `with_morphism` and `union` return, from validated graphs.
Only morphisms that are `allowed` are added by `with_morphism`. -/
inductive Obtained (allowed : PossibilityGraph → PossibilityMorphism → Prop) :
    PossibilityGraph → Prop
  | constructed {g : PossibilityGraph} (h : g.validateTopology = .ok g) : Obtained allowed g
  | withObject {g g' : PossibilityGraph} {value : PossibilityObject} (h : Obtained allowed g)
      (hreturns : g.withObject value = .ok g') : Obtained allowed g'
  | withMorphism {g g' : PossibilityGraph} {value : PossibilityMorphism} (h : Obtained allowed g)
      (hallowed : allowed g value) (hreturns : g.withMorphism value = .ok g') : Obtained allowed g'
  | union {g g' : PossibilityGraph} {others : List PossibilityGraph} (h : Obtained allowed g)
      (hothers : ∀ other ∈ others, Obtained allowed other) (hreturns : g.union others = .ok g') :
      Obtained allowed g'

/-- The graph has both ends of a morphism, or its id. -/
def Connected (g : PossibilityGraph) (value : PossibilityMorphism) : Prop :=
  value.morphismId ∈ g.morphisms.map PossibilityMorphism.morphismId ∨
    value.sourceId ∈ g.objects.map PossibilityObject.objectId ∧
      value.targetId ∈ g.objects.map PossibilityObject.objectId

variable {g g' : PossibilityGraph}

theorem Valid.withObject {value : PossibilityObject} (hg : g.Valid)
    (h : g.withObject value = .ok g') : g'.Valid := by
  unfold PossibilityGraph.withObject at h
  split at h
  case h_1 objects hinsert =>
    cases h
    exact ⟨KeyedUnion.insert_nodup hg.objectIds hinsert, hg.morphismIds, fun edge hedge =>
      (hg.endpoints edge hedge).imp (fun hin => List.map_subset _ (KeyedUnion.subset_insert hinsert) hin)
        fun hin => List.map_subset _ (KeyedUnion.subset_insert hinsert) hin⟩
  case h_2 => cases h

/-- The copy with a morphism more is valid exactly when the morphism is connected. -/
theorem withMorphism_valid_iff {value : PossibilityMorphism} (hg : g.Valid)
    (h : g.withMorphism value = .ok g') : g'.Valid ↔ g.Connected value := by
  unfold PossibilityGraph.withMorphism at h
  split at h
  case h_2 => cases h
  case h_1 morphisms hinsert =>
    cases h
    have hnodup := KeyedUnion.insert_nodup hg.morphismIds hinsert
    by_cases hknown : value.morphismId ∈ g.morphisms.map PossibilityMorphism.morphismId
    · obtain ⟨prior, hprior, hid⟩ := List.mem_map.mp hknown
      have hsame : morphisms = g.morphisms := by
        rw [KeyedUnion.insert, KeyedUnion.prior_of_mem hg.morphismIds hprior hid] at hinsert
        dsimp only at hinsert
        split at hinsert <;> cases hinsert
        rfl
      exact ⟨fun _ => .inl hknown, fun _ => hsame ▸ hg⟩
    · have happend : morphisms = g.morphisms ++ [value] := by
        rw [KeyedUnion.insert, KeyedUnion.prior_eq_none hknown] at hinsert
        exact (Option.some.inj hinsert).symm
      subst happend
      refine ⟨fun hvalid => .inr (hvalid.endpoints value (by simp)), fun hconnected => ?_⟩
      refine ⟨hg.objectIds, hnodup, fun edge hedge => ?_⟩
      rcases List.mem_append.mp hedge with hedge | hedge
      · exact hg.endpoints edge hedge
      · rw [List.mem_singleton.mp hedge]
        exact hconnected.resolve_left hknown

theorem Valid.union : ∀ {others : List PossibilityGraph} {g : PossibilityGraph}, g.Valid →
    (∀ other ∈ others, other.Valid) → g.union others = .ok g' → g'.Valid
  | [], g, hg, _, h => by
    cases h
    exact hg
  | other :: others, g, hg, hothers, h => by
    have hother := hothers other List.mem_cons_self
    rw [PossibilityGraph.union, List.foldlM_cons] at h
    cases hone : g.unionOne other with
    | error e => simp [hone, bind, Except.bind] at h
    | ok joined =>
      rw [hone] at h
      rw [← union_singleton] at hone
      obtain ⟨-, -, rfl⟩ := (union_ok_iff hg hother).mp hone
      exact Valid.union (hg.merged hother) (fun o ho => hothers o (List.mem_cons_of_mem _ ho)) h

/-- Where only connected morphisms are added, every graph obtained is valid. -/
theorem Obtained.valid (h : g.Obtained Connected) : g.Valid := by
  induction h with
  | constructed h => exact (validateTopology_ok_iff _).mp h
  | withObject _ hreturns ih => exact ih.withObject hreturns
  | withMorphism _ hallowed hreturns ih => exact (withMorphism_valid_iff ih hreturns).mpr hallowed
  | union _ _ hreturns ih ihothers => exact ih.union ihothers hreturns

theorem danglingEdge_ne : "project" ≠ "" := by decide

theorem danglingSource_ne : "plan" ≠ "" := by decide

theorem danglingTarget_ne : "action" ≠ "" := by decide

/-- A morphism to an object that was never added. -/
def danglingEdge : PossibilityMorphism :=
  { morphismId := "project", sourceId := "plan", targetId := "action", kind := .project,
    phase := .construct, morphismId_ne := danglingEdge_ne, sourceId_ne := danglingSource_ne,
    targetId_ne := danglingTarget_ne, actuation := project_constructs }

/-- `with_morphism` returns a graph with a missing endpoint, and the scan raises on it. -/
theorem obtained_dangling :
    ∃ g, g.Obtained (fun _ _ => True) ∧ ¬g.Valid ∧
      StructuralScan.structuralScan g .reference 2 = some (.error ⟨"KeyError", "action"⟩) := by
  have hdraft : Obtained (fun _ _ => True) draft := .constructed rfl
  have hreturns : draft.withMorphism danglingEdge =
      .ok { draft with morphisms := [danglingEdge] } := rfl
  refine ⟨_, .withMorphism hdraft trivial hreturns, ?_, rfl⟩
  intro h
  have hin := (h.endpoints danglingEdge (by simp)).2
  simp [draft, draftPlan, danglingEdge] at hin

/-- Where each morphism that `with_morphism` adds has both ends in the graph, every graph
obtained has unique ids and every endpoint, it is the graph constructed from its objects and
morphisms, the scan raises no `KeyError` on it, and neither does the explorer from starts that
are in it. -/
theorem topology_kept_of_connected (C : Canon) (hC : C.NoKeyError) (g : PossibilityGraph)
    (h : g.Obtained Connected) :
    g.Valid ∧
      (∃ direct : PossibilityGraph,
        validateTopology { objects := g.objects, morphisms := g.morphisms } = .ok direct ∧
          direct.graphDigest C = g.graphDigest C) ∧
      (∀ depth, g.objects.length < depth →
        ∃ outcome, StructuralScan.structuralScan g C depth = some outcome ∧ NoKeyError outcome) ∧
      ∀ ctx limits startIds fuel outcome,
        (∀ objectId ∈ startIds, objectId ∈ g.objects.map PossibilityObject.objectId) →
          exploreWithin C g ctx limits startIds fuel = some outcome → NoKeyError outcome :=
  ⟨h.valid, ⟨g, (validateTopology_ok_iff g).mpr h.valid, rfl⟩,
    fun _ hdepth => NoKeyError.structuralScan hC h.valid hdepth,
    fun _ _ _ _ _ hstarts hexplore => NoKeyError.exploreWithin hC hstarts hexplore⟩

theorem topology_kept_projected :
    (projected.merged draft).Valid ∧ ∃ outcome,
      StructuralScan.structuralScan (projected.merged draft) .reference 3 = some outcome ∧
        NoKeyError outcome := by
  have hdraft : Obtained Connected draft := .constructed rfl
  have hprojected : Obtained Connected projected := .constructed rfl
  have hunion : projected.union [draft] = .ok (projected.merged draft) := rfl
  obtain ⟨hvalid, -, hscan, -⟩ := topology_kept_of_connected _ Canon.reference_noKeyError _
    (.union hprojected (by simpa using hdraft) hunion)
  exact ⟨hvalid, hscan 3 (by decide)⟩

end PossibilityGraph

end GymAct
