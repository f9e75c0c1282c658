import GymAct.Fallible
import GymAct.Maximal
import Mathlib.Algebra.BigOperators.Group.List.Basic
import Mathlib.CategoryTheory.Category.Basic
import Mathlib.Combinatorics.Quiver.ReflQuiver

/-!
# The algebra of paths

`algebra.py` : `identity_path` and `compose_paths`. The objectives are a commutative monoid under
`compose`, so that a fold of edges does not depend on where it is cut. The paths from one object to
another are the arrows of a category (`Place`), of which `compose_paths` is the composition where
the endpoints match and refuses all else (`composePaths_eq_ok_iff`).

`identity_path` refuses the empty object id, which a path may have : `paths_compose`.
-/

namespace GymAct

open CategoryTheory

/-! ## `algebra.py` -/

def identityPath (objectId : String) : Except PyError PossibilityPath :=
  if objectId = "" then .error (valueError "IDENTITY_PATH_REQUIRES_OBJECT")
  else .ok { objectIds := [objectId] }

/-- The path along both, the shared object once. -/
def joinPaths (left right : PossibilityPath) : PossibilityPath where
  objectIds := left.objectIds ++ right.objectIds.drop 1
  morphismIds := left.morphismIds ++ right.morphismIds
  objectives := left.objectives.compose right.objectives

def composePaths (left right : PossibilityPath) : Except PyError PossibilityPath :=
  if left.objectIds = [] ∨ right.objectIds = [] then
    .error (valueError "PATH_COMPOSITION_REQUIRES_OBJECTS")
  else if left.objectIds.getLast? ≠ right.objectIds.head? then
    .error (valueError "PATH_COMPOSITION_ENDPOINT_MISMATCH")
  else .ok (joinPaths left right)

/-- `morphism`. -/
def PossibilityGraph.morphism (g : PossibilityGraph) (morphismId : String) :
    Except PyError PossibilityMorphism :=
  match g.morphisms.find? fun item => item.morphismId == morphismId with
  | some item => .ok item
  | none => .error ⟨"KeyError", morphismId⟩

/-! ## Objectives -/

namespace ObjectiveVector

attribute [ext] ObjectiveVector PossibilityPath

variable (a b c : ObjectiveVector)

theorem compose_assoc : (a.compose b).compose c = a.compose (b.compose c) := by
  ext <;> simp [compose, add_assoc, min_assoc]

theorem compose_comm : a.compose b = b.compose a := by
  ext <;> simp [compose, add_comm, min_comm]

/-- No confidence is above that of the default. -/
theorem compose_zero : a.compose {} = a := by
  ext <;> simp [compose, a.verificationConfidence_le]

/-- `zero_objectives`. -/
instance : Zero ObjectiveVector := ⟨{}⟩

instance : Add ObjectiveVector := ⟨compose⟩

instance : AddCommMonoid ObjectiveVector where
  add_assoc := compose_assoc
  add_comm := compose_comm
  add_zero := compose_zero
  zero_add a := (compose_comm 0 a).trans (compose_zero a)
  nsmul := nsmulRec

end ObjectiveVector

theorem composeAll_eq_sum (edges : List PossibilityMorphism) :
    composeAll edges = (edges.map PossibilityMorphism.objectives).sum := by
  rw [List.sum_eq_foldl, List.foldl_map]
  rfl

/-- A fold may be cut anywhere. -/
theorem composeAll_append (edges later : List PossibilityMorphism) :
    composeAll (edges ++ later) = (composeAll edges).compose (composeAll later) := by
  rw [composeAll_eq_sum, List.map_append, List.sum_append, ← composeAll_eq_sum, ← composeAll_eq_sum]
  rfl

/-! ## The category of paths -/

/-- An object, as far as paths know it. -/
@[ext]
structure Place where
  objectId : String

/-- A path from one object to another. -/
@[ext]
structure Route (source target : String) where
  path : PossibilityPath
  first : path.objectIds.head? = some source
  last : path.objectIds.getLast? = some target

namespace Route

variable {source middle target : String}

def trivial (objectId : String) : Route objectId objectId := ⟨startPath objectId, rfl, rfl⟩

def append (p : Route source middle) (q : Route middle target) : Route source target where
  path := joinPaths p.path q.path
  first := by simp [joinPaths, p.first]
  last := by
    obtain ⟨rest, hq⟩ := List.head?_eq_some_iff.mp q.first
    have hlast := q.last
    rw [hq, List.getLast?_cons] at hlast
    rw [joinPaths, hq, List.drop_one, List.tail_cons, List.getLast?_append, p.last, ← hlast]
    cases rest.getLast? <;> rfl

theorem trivial_append (p : Route source target) : (trivial source).append p = p := by
  obtain ⟨rest, hp⟩ := List.head?_eq_some_iff.mp p.first
  ext1
  ext1
  · simp [append, joinPaths, trivial, startPath, hp]
  · simp [append, joinPaths, trivial, startPath]
  · exact zero_add p.path.objectives

theorem append_trivial (p : Route source target) : p.append (trivial target) = p := by
  ext1
  ext1
  · simp [append, joinPaths, trivial, startPath]
  · simp [append, joinPaths, trivial, startPath]
  · exact add_zero p.path.objectives

theorem append_assoc {source' : String} (p : Route source middle) (q : Route middle target)
    (r : Route target source') : (p.append q).append r = p.append (q.append r) := by
  obtain ⟨rest, hq⟩ := List.head?_eq_some_iff.mp q.first
  ext1
  ext1
  · simp [append, joinPaths, hq]
  · simp [append, joinPaths]
  · exact add_assoc p.path.objectives q.path.objectives r.path.objectives

end Route

/-- Paths are the arrows between objects, and a path of no edge is the identity. -/
instance : Category Place where
  Hom a b := Route a.objectId b.objectId
  id a := Route.trivial a.objectId
  comp p q := p.append q
  id_comp := Route.trivial_append
  comp_id := Route.append_trivial
  assoc := Route.append_assoc

variable {a b c : Place} {p q r : PossibilityPath}

/-- A path that has objects is an arrow. -/
theorem exists_route (h : p.objectIds ≠ []) : ∃ (a b : Place) (f : a ⟶ b), f.path = p :=
  ⟨⟨p.objectIds.head h⟩, ⟨p.objectIds.getLast h⟩,
    ⟨p, List.head?_eq_some_head h, List.getLast?_eq_some_getLast h⟩, rfl⟩

theorem composePaths_route (f : a ⟶ b) (g : b ⟶ c) :
    composePaths f.path g.path = .ok (f ≫ g).path := by
  have hf : f.path.objectIds ≠ [] := fun hnil => by simpa [hnil] using f.last
  have hg : g.path.objectIds ≠ [] := fun hnil => by simpa [hnil] using g.first
  rw [composePaths, if_neg (not_or.mpr ⟨hf, hg⟩), if_neg (not_not.mpr (f.last.trans g.first.symm))]
  rfl

theorem composePaths_of_ne {b' : Place} (f : a ⟶ b) (g : b' ⟶ c) (h : b ≠ b') :
    composePaths f.path g.path = .error (valueError "PATH_COMPOSITION_ENDPOINT_MISMATCH") := by
  have hf : f.path.objectIds ≠ [] := fun hnil => by simpa [hnil] using f.last
  have hg : g.path.objectIds ≠ [] := fun hnil => by simpa [hnil] using g.first
  have hends : f.path.objectIds.getLast? ≠ g.path.objectIds.head? := by
    rw [f.last, g.first]
    exact fun heq => h (Place.ext (Option.some.inj heq))
  rw [composePaths, if_neg (not_or.mpr ⟨hf, hg⟩), if_pos hends]

theorem identityPath_route (h : a.objectId ≠ "") : identityPath a.objectId = .ok (𝟙 a : a ⟶ a).path := by
  rw [identityPath, if_neg h]
  rfl

/-- Paths compose exactly where the one starts at the end of the other. -/
theorem composePaths_eq_ok_iff (hp : p.objectIds ≠ []) (hq : q.objectIds ≠ []) :
    (∃ joined, composePaths p q = .ok joined) ↔ p.objectIds.getLast? = q.objectIds.head? := by
  rw [composePaths, if_neg (not_or.mpr ⟨hp, hq⟩)]
  split
  · next hne => exact iff_of_false nofun hne
  · next heq => exact iff_of_true ⟨_, rfl⟩ (not_not.mp heq)

/-! ## Splitting -/

section Split

variable (g : PossibilityGraph)

/-- The fold of the objectives of the edges with these ids. -/
def foldObjectives (morphismIds : List String) : Except PyError ObjectiveVector := do
  let edges ← morphismIds.mapM g.morphism
  return composeAll edges

/-- The parts of a path before and after its object of this index, each with the fold of its own
edges' objectives. -/
def splitPath (path : PossibilityPath) (i : ℕ) :
    Except PyError (PossibilityPath × PossibilityPath) := do
  let before ← foldObjectives g (path.morphismIds.take i)
  let after ← foldObjectives g (path.morphismIds.drop i)
  return (
    { objectIds := path.objectIds.take (i + 1)
      morphismIds := path.morphismIds.take i
      objectives := before },
    { objectIds := path.objectIds.drop i
      morphismIds := path.morphismIds.drop i
      objectives := after })

end Split

variable {graph : PossibilityGraph}

theorem morphism_eq_ok (hgraph : graph.Valid) {edge : PossibilityMorphism}
    (h : edge ∈ graph.morphisms) : graph.morphism edge.morphismId = .ok edge := by
  unfold PossibilityGraph.morphism
  cases hfind : graph.morphisms.find? fun item => item.morphismId == edge.morphismId with
  | none =>
    have hother := List.find?_eq_none.mp hfind edge h
    simp at hother
  | some item =>
    have hid : item.morphismId = edge.morphismId := by simpa using List.find?_some hfind
    rw [List.inj_on_of_nodup_map hgraph.morphismIds (List.mem_of_find?_eq_some hfind) h hid]

theorem foldObjectives_eq (hgraph : graph.Valid) {edges : List PossibilityMorphism}
    (h : ∀ edge ∈ edges, edge ∈ graph.morphisms) :
    foldObjectives graph (edges.map PossibilityMorphism.morphismId) = .ok (composeAll edges) := by
  have hedges : (edges.map PossibilityMorphism.morphismId).mapM graph.morphism = .ok edges := by
    rw [List.mapM_map]
    refine (Fallible.mapM_eq_ok (g := id) fun edge hedge => ?_).trans (by rw [List.map_id])
    exact morphism_eq_ok hgraph (h edge hedge)
  rw [foldObjectives, hedges]
  rfl

/-- From the object that some edges lead to, the other edges go on. -/
theorem drop_objects : ∀ (objectId : String) (edges : List PossibilityMorphism) {i : ℕ},
    i ≤ edges.length → (objectId :: edges.map PossibilityMorphism.targetId).drop i =
      endOf objectId (edges.take i) :: (edges.drop i).map PossibilityMorphism.targetId
  | _, _, 0, _ => rfl
  | _, [], _ + 1, h => by cases h
  | _, edge :: edges, i + 1, h => by
    rw [List.drop_succ_cons, List.map_cons]
    exact drop_objects edge.targetId edges (Nat.le_of_succ_le_succ h)

/-- The path of some edges, as an arrow. -/
def routeOf (objectId : String) (edges : List PossibilityMorphism) :
    Route objectId (endOf objectId edges) where
  path := pathOf (objectId, edges)
  first := rfl
  last := by
    rw [← lastId_pathOf, PossibilityPath.lastId, List.getLastD_eq_getLast?]
    simp [pathOf, List.getLast?_cons]

/-- Edges one after another are composed. -/
theorem joinPaths_pathOf (objectId : String) (edges later : List PossibilityMorphism) :
    joinPaths (pathOf (objectId, edges)) (pathOf (endOf objectId edges, later)) =
      pathOf (objectId, edges ++ later) := by
  ext1
  · simp [joinPaths, pathOf]
  · simp [joinPaths, pathOf]
  · exact (composeAll_append edges later).symm

/-- The parts of the path of some edges are the paths of their parts. -/
theorem splitPath_pathOf (hgraph : graph.Valid) {objectId : String}
    {edges : List PossibilityMorphism} (h : ∀ edge ∈ edges, edge ∈ graph.morphisms) {i : ℕ}
    (hi : i ≤ edges.length) : splitPath graph (pathOf (objectId, edges)) i =
      .ok (pathOf (objectId, edges.take i),
        pathOf (endOf objectId (edges.take i), edges.drop i)) := by
  have hbefore := foldObjectives_eq hgraph fun edge (hedge : edge ∈ edges.take i) =>
    h edge (List.mem_of_mem_take hedge)
  have hafter := foldObjectives_eq hgraph fun edge (hedge : edge ∈ edges.drop i) =>
    h edge (List.mem_of_mem_drop hedge)
  unfold splitPath
  simp only [pathOf, ← List.map_take, ← List.map_drop, hbefore, hafter, drop_objects objectId edges hi,
    List.take_succ_cons]
  rfl

/-- The parts of a path of some edges compose to it. -/
theorem composePaths_split (objectId : String) (edges : List PossibilityMorphism) (i : ℕ) :
    composePaths (pathOf (objectId, edges.take i))
      (pathOf (endOf objectId (edges.take i), edges.drop i)) = .ok (pathOf (objectId, edges)) := by
  have h := composePaths_route (a := ⟨objectId⟩) (b := ⟨endOf objectId (edges.take i)⟩)
    (c := ⟨endOf (endOf objectId (edges.take i)) (edges.drop i)⟩)
    (routeOf objectId (edges.take i)) (routeOf (endOf objectId (edges.take i)) (edges.drop i))
  refine h.trans (congrArg Except.ok ?_)
  exact (joinPaths_pathOf objectId (edges.take i) (edges.drop i)).trans
    (by rw [List.take_append_drop])

/-- A result lists what the loop emitted. -/
theorem exists_loop_of_explore {C : Canon} {startIds : List String} {ctx : AdmissionContext}
    {limits : ExplorationBounds} {fuel : ℕ} {result : ExplorationResult}
    (h : exploreWithin C graph ctx limits startIds fuel = some (.ok result)) :
    ∃ s, exploreLoop C graph ctx limits fuel { stack := startIds.map startPath } = some (.ok s) ∧
      result.paths = s.emitted := by
  unfold exploreWithin at h
  split at h
  · cases h
  · obtain ⟨outcome, hloop, houtcome⟩ := Option.map_eq_some_iff.mp h
    obtain ⟨s, rfl, hresult⟩ := Fallible.bind_eq_ok.mp houtcome
    obtain ⟨digest, -, hresult⟩ := Fallible.bind_eq_ok.mp hresult
    obtain ⟨ids, -, hresult⟩ := Fallible.bind_eq_ok.mp hresult
    cases hresult
    exact ⟨s, hloop, rfl⟩

/-- What the explorer emits is the path of some edges of the graph. -/
theorem exists_edges_of_emitted {C : Canon} {startIds : List String} {ctx : AdmissionContext}
    {limits : ExplorationBounds} {fuel : ℕ} {result : ExplorationResult}
    (h : exploreWithin C graph ctx limits startIds fuel = some (.ok result)) {p : PossibilityPath}
    (hp : p ∈ result.paths) : ∃ objectId edges, (∀ edge ∈ edges, edge ∈ graph.morphisms) ∧
      p = pathOf (objectId, edges) := by
  obtain ⟨s, hloop, hpaths⟩ := exists_loop_of_explore h
  obtain ⟨hsound, -⟩ := exploreLoop_keeps (I := SoundState graph startIds ctx limits)
    (fun _ _ _ _ _ hs hvisit hi => soundState_visit hs hvisit hi) _ hloop
    ⟨fun p hp => by
      obtain ⟨objectId, ho, rfl⟩ := List.mem_map.mp hp
      exact ⟨(objectId, []), closurePath_nil.mpr ho, rfl⟩, by simp⟩
  rw [hpaths] at hp
  obtain ⟨n, hn, rfl⟩ := hsound.emitted p hp
  exact ⟨n.1, n.2, hn.2.edges, rfl⟩

/-! ## The laws -/

/-- `identity_path` at an object id is a unit on both sides, unless the id is empty, and then it is
refused. -/
structure UnitLaws (p : PossibilityPath) : Prop where
  left : ∀ objectId, p.objectIds.head? = some objectId → objectId ≠ "" →
    (identityPath objectId >>= fun unit => composePaths unit p) = .ok p
  right : ∀ objectId, p.objectIds.getLast? = some objectId → objectId ≠ "" →
    (identityPath objectId >>= fun unit => composePaths p unit) = .ok p

/-- What is emitted is composed of its parts, wherever it is split. -/
def Splits (C : Canon) (graph : PossibilityGraph) (p : PossibilityPath) : Prop :=
  ∀ i < p.objectIds.length, ∃ before after joined, splitPath graph p i = .ok (before, after) ∧
    composePaths before after = .ok joined ∧ joined = p ∧ joined.pathId C = p.pathId C

theorem unitLaws (hp : p.objectIds ≠ []) : UnitLaws p := by
  obtain ⟨a, b, f, rfl⟩ := exists_route hp
  refine ⟨fun objectId hfirst hne => ?_, fun objectId hlast hne => ?_⟩
  · obtain rfl : a.objectId = objectId := Option.some.inj (f.first.symm.trans hfirst)
    rw [identityPath_route hne, Fallible.ok_bind, composePaths_route, Category.id_comp]
  · obtain rfl : b.objectId = objectId := Option.some.inj (f.last.symm.trans hlast)
    rw [identityPath_route hne, Fallible.ok_bind, composePaths_route, Category.comp_id]

/-- Both ways of composing three paths come to the same, refusals included. -/
theorem composePaths_assoc (hp : p.objectIds ≠ []) (hq : q.objectIds ≠ [])
    (hr : r.objectIds ≠ []) : (composePaths p q >>= fun joined => composePaths joined r) =
      composePaths q r >>= fun joined => composePaths p joined := by
  obtain ⟨a, b, f, rfl⟩ := exists_route hp
  obtain ⟨b', c, g, rfl⟩ := exists_route hq
  obtain ⟨c', d, k, rfl⟩ := exists_route hr
  by_cases hb : b = b'
  · subst hb
    rw [composePaths_route, Fallible.ok_bind]
    by_cases hc : c = c'
    · subst hc
      rw [composePaths_route, composePaths_route, Fallible.ok_bind, composePaths_route,
        Category.assoc]
    · rw [composePaths_of_ne _ _ hc, composePaths_of_ne _ _ hc]
      rfl
  · rw [composePaths_of_ne _ _ hb]
    by_cases hc : c = c'
    · subst hc
      rw [composePaths_route, Fallible.ok_bind, composePaths_of_ne _ _ hb]
      rfl
    · rw [composePaths_of_ne _ _ hc]
      rfl

theorem splits_of_emitted {C : Canon} (hgraph : graph.Valid) {startIds : List String}
    {ctx : AdmissionContext} {limits : ExplorationBounds} {fuel : ℕ} {result : ExplorationResult}
    (h : exploreWithin C graph ctx limits startIds fuel = some (.ok result)) {p : PossibilityPath}
    (hp : p ∈ result.paths) : Splits C graph p := by
  obtain ⟨objectId, edges, hedges, rfl⟩ := exists_edges_of_emitted h hp
  intro i hi
  have hle : i ≤ edges.length := by
    simp only [pathOf, List.length_cons, List.length_map] at hi
    omega
  exact ⟨_, _, _, splitPath_pathOf hgraph hedges hle, composePaths_split objectId edges i, rfl, rfl⟩

/-- Paths that have objects compose as arrows do, with a unit at every object id that is not empty,
and what the explorer emits is composed of its parts. -/
theorem paths_compose (C : Canon) (graph : PossibilityGraph) (hgraph : graph.Valid) :
    (∀ p : PossibilityPath, p.objectIds ≠ [] → UnitLaws p) ∧
    identityPath "" = .error (valueError "IDENTITY_PATH_REQUIRES_OBJECT") ∧
    (∀ p q : PossibilityPath, p.objectIds ≠ [] → q.objectIds ≠ [] →
      ((∃ joined, composePaths p q = .ok joined) ↔ p.objectIds.getLast? = q.objectIds.head?)) ∧
    (∀ p q r : PossibilityPath, p.objectIds ≠ [] → q.objectIds ≠ [] → r.objectIds ≠ [] →
      (composePaths p q >>= fun joined => composePaths joined r) =
        composePaths q r >>= fun joined => composePaths p joined) ∧
    ∀ startIds ctx limits fuel result,
      exploreWithin C graph ctx limits startIds fuel = some (.ok result) →
        ∀ p ∈ result.paths, Splits C graph p :=
  ⟨fun _ hp => unitLaws hp, rfl, fun _ _ => composePaths_eq_ok_iff,
    fun _ _ _ => composePaths_assoc, fun _ _ _ _ _ h _ hp => splits_of_emitted hgraph h hp⟩

/-- The path that the explorer finds from `a`. -/
theorem paths_compose_sample : Splits .reference sampleGraph (pathOf ("a", [sampleEdge])) := by
  have hfound : sampleExploration.map (fun outcome => outcome.map ExplorationResult.paths) =
      some (.ok [pathOf ("a", [sampleEdge])]) := by decide +kernel
  obtain ⟨outcome, houtcome, hmap⟩ := Option.map_eq_some_iff.mp hfound
  cases outcome with
  | error e => cases hmap
  | ok result =>
    have hpaths : result.paths = [pathOf ("a", [sampleEdge])] := Except.ok.inj hmap
    have hlaws := paths_compose .reference sampleGraph sampleGraph_valid
    exact hlaws.2.2.2.2 _ _ _ _ result houtcome _ (hpaths ▸ List.mem_singleton_self _)

/-- A path may be at the empty object id, where there is no identity. -/
theorem no_identity_at_empty :
    (startPath "").objectIds ≠ [] ∧ (startPath "").objectIds.head? = some "" ∧
      (identityPath "" >>= fun unit => composePaths unit (startPath "")) ≠ .ok (startPath "") :=
  ⟨by decide, rfl, nofun⟩

end GymAct
