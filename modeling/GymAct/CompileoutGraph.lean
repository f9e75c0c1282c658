import GymAct.Cut

/-!
# Graph recipes

`compileout_graph.py` : a route of an exploration, reversible path and DO edge, is compiled
into a recipe (`compileGraphRecipe`) that is reused as long as the exploration still has it
(`admitGraphRecipe`). The path is looked up among the listed paths of the exploration, the
edge in its frontier.

`compilable_iff` : what the cut accepts is compiled, and admitted, exactly when the path is
listed. The frontier has entries of the starts as well, whose paths have no edge and are not
listed.
-/

namespace GymAct

/-! ## Recipes -/

@[ext]
structure GraphRecipeIdentity where
  problemIdentity : String
  environmentIdentity : String
  authorityClass : String
  policyRevision : String
  verifierRef : String
  inputContractDigest : String
  graphDigest : String
  filled : ∀ field ∈ [problemIdentity, environmentIdentity, authorityClass, policyRevision,
    verifierRef, inputContractDigest, graphDigest], field ≠ "" := by decide
  deriving Repr

instance : DecidableEq GraphRecipeIdentity := fun _ _ =>
  decidable_of_iff _ GraphRecipeIdentity.ext_iff.symm

def GraphRecipeIdentity.modelDump (i : GraphRecipeIdentity) : Value :=
  .dict [("problem_identity", .str i.problemIdentity),
    ("environment_identity", .str i.environmentIdentity),
    ("authority_class", .str i.authorityClass), ("policy_revision", .str i.policyRevision),
    ("verifier_ref", .str i.verifierRef), ("input_contract_digest", .str i.inputContractDigest),
    ("graph_digest", .str i.graphDigest)]

/-- What a recipe is the digest of. -/
structure RecipePayload where
  identity : GraphRecipeIdentity
  pathId : String
  reversibleMorphismIds : List String
  irreversibleMorphismId : String
  sourceReceiptRefs : List String
  deriving DecidableEq, Repr

def RecipePayload.modelDump (p : RecipePayload) : Value :=
  .dict [("identity", p.identity.modelDump), ("path_id", .str p.pathId),
    ("reversible_morphism_ids", .ofStrings p.reversibleMorphismIds),
    ("irreversible_morphism_id", .str p.irreversibleMorphismId),
    ("source_receipt_refs", .ofStrings p.sourceReceiptRefs)]

/-- A route, with the identity it was compiled under. -/
structure CompiledGraphRecipe (C : Canon) extends RecipePayload where
  recipeDigest : String
  standing : Standing := .structural
  filled : pathId ≠ "" ∧ irreversibleMorphismId ≠ "" ∧ sourceReceiptRefs ≠ [] ∧ recipeDigest ≠ ""
  /-- `IRREVERSIBLE_MORPHISM_CANNOT_BE_IN_REVERSIBLE_ROUTE`. -/
  cut : irreversibleMorphismId ∉ reversibleMorphismIds
  /-- `COMPILED_GRAPH_RECIPE_DIGEST_MISMATCH`. -/
  verified : C.digest toRecipePayload.modelDump = .ok recipeDigest

/-- `CompiledGraphRecipe(…)`. -/
def CompiledGraphRecipe.construct (C : Canon) (payload : RecipePayload) (recipeDigest : String) :
    Except PyError (CompiledGraphRecipe C) :=
  if hfilled : payload.pathId ≠ "" ∧ payload.irreversibleMorphismId ≠ "" ∧
      payload.sourceReceiptRefs ≠ [] ∧ recipeDigest ≠ "" then
    if hcut : payload.irreversibleMorphismId ∉ payload.reversibleMorphismIds then
      match hdigest : C.digest payload.modelDump with
      | .error e => .error e
      | .ok d =>
        if hd : recipeDigest = d then
          .ok { payload with
            recipeDigest
            filled := hfilled
            cut := hcut
            verified := hd ▸ hdigest }
        else .error (valueError "COMPILED_GRAPH_RECIPE_DIGEST_MISMATCH")
    else .error (valueError "IRREVERSIBLE_MORPHISM_CANNOT_BE_IN_REVERSIBLE_ROUTE")
  else .error ⟨"ValidationError", "CompiledGraphRecipe"⟩

structure GraphRecipeAdmission where
  admitted : Bool
  modelRequired : Bool
  pathId : Option String := none
  irreversibleMorphismId : Option String := none
  standing : Standing
  reason : String
  deriving DecidableEq, Repr

/-! ## Compilation and reuse -/

section Compile

variable (C : Canon)

/-- The first listed path of an id, whose digest is computed anew for each path. -/
def findPath (pathId : String) : List PossibilityPath → Except PyError (Option PossibilityPath)
  | [] => .ok none
  | p :: paths => do
    let d ← p.pathId C
    if d = pathId then .ok (some p) else findPath pathId paths

/-- `compile_graph_recipe`. -/
def compileGraphRecipe (identity : GraphRecipeIdentity) (exploration : ExplorationResult)
    (pathId irreversibleMorphismId : String) (sourceReceiptRefs : List String) :
    Except PyError (CompiledGraphRecipe C) := do
  if exploration.graphDigest ≠ identity.graphDigest then
    throw (valueError "COMPILE_OUT_GRAPH_IDENTITY_MISMATCH")
  else
    match ← findPath C pathId exploration.paths with
    | none => throw (valueError "COMPILE_OUT_PATH_NOT_IN_EXPLORATION")
    | some path =>
      match exploration.frontierEdge? pathId irreversibleMorphismId with
      | none => throw (valueError "COMPILE_OUT_FRONTIER_NOT_IN_EXPLORATION")
      | some _ =>
        if sourceReceiptRefs = [] then
          throw (valueError "COMPILE_OUT_REQUIRES_SOURCE_RECEIPTS")
        else
          let payload : RecipePayload :=
            { identity, pathId, reversibleMorphismIds := path.morphismIds, irreversibleMorphismId,
              sourceReceiptRefs }
          let recipeDigest ← C.digest payload.modelDump
          CompiledGraphRecipe.construct C payload recipeDigest

/-- A recipe that is stale. -/
def staleRecipe (reason : String) : GraphRecipeAdmission :=
  { admitted := false, modelRequired := true, standing := .stale, reason }

/-- A recipe whose route is still there. -/
def hotRecipe (payload : RecipePayload) : GraphRecipeAdmission :=
  { admitted := true, modelRequired := false, pathId := some payload.pathId,
    irreversibleMorphismId := some payload.irreversibleMorphismId, standing := .candidate,
    reason := "HOT_GRAPH_ROUTE_ADMITTED_AUTHORITY_STILL_REQUIRED" }

/-- `admit_graph_recipe`. -/
def admitGraphRecipe (recipe : CompiledGraphRecipe C) (currentIdentity : GraphRecipeIdentity)
    (exploration : ExplorationResult) : Except PyError GraphRecipeAdmission := do
  if recipe.identity ≠ currentIdentity then
    pure (staleRecipe "COMPILED_GRAPH_RECIPE_IDENTITY_DRIFT")
  else if exploration.graphDigest ≠ recipe.identity.graphDigest then
    pure (staleRecipe "COMPILED_GRAPH_RECIPE_GRAPH_DRIFT")
  else
    let path ← findPath C recipe.pathId exploration.paths
    if path.map PossibilityPath.morphismIds ≠ some recipe.reversibleMorphismIds then
      pure (staleRecipe "COMPILED_GRAPH_RECIPE_ROUTE_DRIFT")
    else if exploration.frontierEdge? recipe.pathId recipe.irreversibleMorphismId = none then
      pure (staleRecipe "COMPILED_GRAPH_RECIPE_FRONTIER_DRIFT")
    else pure (hotRecipe recipe.toRecipePayload)

end Compile

/-! ## Routes of an exploration -/

section Routes

variable {C : Canon} {graph : PossibilityGraph} {ctx : AdmissionContext}
  {limits : ExplorationBounds} {startIds : List String} {exploration : ExplorationResult}
  {fuel : ℕ}

/-- The path is one that the explorer started from or emitted. -/
def Taken (startIds : List String) (emitted : List PossibilityPath) (p : PossibilityPath) : Prop :=
  p ∈ emitted ∨ ∃ objectId ∈ startIds, p = startPath objectId

/-- As long as nothing was truncated, the frontier has the paths that were taken. -/
def FrontierTaken (C : Canon) (startIds : List String) (s : ExplorerState) : Prop :=
  s.truncationReasons = [] → (∀ p ∈ s.stack, Taken startIds s.emitted p) ∧
    ∀ f ∈ s.frontier, ∃ p, Taken startIds s.emitted p ∧ p.pathId C = .ok f.pathId

theorem pathId_of_mem_frontierEdges {path : PossibilityPath} {f : IrreversibleFrontierEdge}
    (h : .ok f ∈ frontierEdges C graph ctx path) : path.pathId C = .ok f.pathId := by
  obtain ⟨edge, -, hf⟩ := List.mem_map.mp h
  unfold frontierEdge at hf
  cases hadmission : evaluateMorphism edge ctx with
  | error e =>
    rw [hadmission] at hf
    cases hf
  | ok admission =>
    rw [hadmission] at hf
    cases hpath : path.pathId C with
    | error e =>
      rw [hpath] at hf
      cases hf
    | ok d =>
      rw [hpath] at hf
      cases hf
      rfl

theorem frontierTaken_visit {path : PossibilityPath} {stack longer : List PossibilityPath}
    {s s' : ExplorerState} (hs : s.stack = path :: stack)
    (h : Visits C graph ctx limits path longer { s with stack } s')
    (hi : FrontierTaken C startIds s) : FrontierTaken C startIds s' := by
  intro hreasons
  obtain ⟨hbefore, -, hstack, hfrontier⟩ := h.all hreasons
  obtain ⟨hstacked, hlisted⟩ := hi hbefore
  have hgrow : ∀ p, Taken startIds s.emitted p → Taken startIds s'.emitted p := by
    intro p hp
    rw [h.emitted]
    exact hp.imp_left (List.mem_append_left longer)
  refine ⟨fun p hp => ?_, fun f hf => ?_⟩
  · rw [hstack] at hp
    rcases List.mem_append.mp hp with hp | hp
    · rw [h.emitted]
      exact .inl (List.mem_append_right _ (List.mem_reverse.mp hp))
    · exact hgrow p (hstacked p (hs ▸ List.mem_cons_of_mem path hp))
  · have hmem : (.ok f : Except PyError IrreversibleFrontierEdge) ∈ s'.frontier.map .ok :=
      List.mem_map_of_mem hf
    rw [hfrontier] at hmem
    rcases List.mem_append.mp hmem with hmem | hmem
    · obtain ⟨f', hf', heq⟩ := List.mem_map.mp hmem
      obtain ⟨p, hp, hid⟩ := hlisted f' hf'
      rw [← Except.ok.inj heq]
      exact ⟨p, hgrow p hp, hid⟩
    · exact ⟨path, hgrow path (hstacked path (hs ▸ List.mem_cons_self)),
        pathId_of_mem_frontierEdges hmem⟩

/-- The state the explorer ends in. -/
theorem explorer_of_explore
    (h : exploreWithin C graph ctx limits startIds fuel = some (.ok exploration)) :
    ∃ s, exploreLoop C graph ctx limits fuel { stack := startIds.map startPath } = some (.ok s) ∧
      exploration.paths = s.emitted ∧ exploration.irreversibleFrontier = s.frontier ∧
      (exploration.truncated = false → s.truncationReasons = []) := by
  unfold exploreWithin at h
  split at h
  · cases h
  · obtain ⟨outcome, hloop, houtcome⟩ := Option.map_eq_some_iff.mp h
    cases outcome with
    | error e => cases houtcome
    | ok s =>
      simp only [bind, Except.bind, explorationResult, pure, Except.pure] at houtcome
      split at houtcome
      · cases houtcome
      · split at houtcome
        · cases houtcome
        · cases houtcome
          exact ⟨s, hloop, rfl, rfl, by simp⟩

/-- The listed paths are routes of traversable edges of the graph. -/
theorem route_of_mem_paths
    (h : exploreWithin C graph ctx limits startIds fuel = some (.ok exploration))
    {p : PossibilityPath} (hp : p ∈ exploration.paths) :
    ∃ n, InClosure graph startIds ctx limits n ∧ p = pathOf n := by
  obtain ⟨s, hloop, hpaths, -⟩ := explorer_of_explore h
  obtain ⟨hsound, -⟩ := exploreLoop_keeps (I := SoundState graph startIds ctx limits)
    (fun _ _ _ _ _ hs h hi => soundState_visit hs h hi) fuel hloop
    ⟨fun p hp => by
      obtain ⟨objectId, ho, rfl⟩ := List.mem_map.mp hp
      exact ⟨(objectId, []), closurePath_nil.mpr ho, rfl⟩, by simp⟩
  exact hsound.emitted p (hpaths ▸ hp)

/-- The frontier of a complete exploration has the listed paths and the starts. -/
theorem taken_of_mem_frontier
    (h : exploreWithin C graph ctx limits startIds fuel = some (.ok exploration))
    (hcomplete : exploration.truncated = false) {f : IrreversibleFrontierEdge}
    (hf : f ∈ exploration.irreversibleFrontier) :
    ∃ p, Taken startIds exploration.paths p ∧ p.pathId C = .ok f.pathId := by
  obtain ⟨s, hloop, hpaths, hfrontier, hreasons⟩ := explorer_of_explore h
  obtain ⟨htaken, -⟩ := exploreLoop_keeps (I := FrontierTaken C startIds)
    (fun _ _ _ _ _ hs h hi => frontierTaken_visit hs h hi) fuel hloop fun _ =>
    ⟨fun p hp => by
      obtain ⟨objectId, ho, rfl⟩ := List.mem_map.mp hp
      exact .inr ⟨objectId, ho, rfl⟩, by simp⟩
  rw [hpaths]
  exact (htaken (hreasons hcomplete)).2 f (hfrontier ▸ hf)

/-- A DO edge is on no listed path. -/
theorem do_notMem_route (hgraph : graph.Valid)
    (h : exploreWithin C graph ctx limits startIds fuel = some (.ok exploration))
    {p : PossibilityPath} (hp : p ∈ exploration.paths) {morphismId : String}
    {morphism : PossibilityMorphism} (hmorphism : graph.morphism? morphismId = some morphism)
    (hphase : morphism.phase = .do) : morphismId ∉ p.morphismIds := by
  obtain ⟨n, ⟨-, hn⟩, rfl⟩ := route_of_mem_paths h hp
  intro hmem
  obtain ⟨edge, hedge, hid⟩ := List.mem_map.mp hmem
  have hfound : morphism.morphismId = morphismId := by simpa using List.find?_some hmorphism
  have heq : edge = morphism :=
    List.inj_on_of_nodup_map hgraph.morphismIds (hn.edges edge hedge)
      (List.mem_of_find?_eq_some hmorphism) (hid.trans hfound.symm)
  exact (hn.traversable edge hedge).1 (heq ▸ hphase)

end Routes

/-! ## What is compiled -/

section Compiled

variable {C : Canon}

/-- The listed path has the id. -/
def Listed (C : Canon) (exploration : ExplorationResult) (pathId : String) : Prop :=
  ∃ p ∈ exploration.paths, p.pathId C = .ok pathId

theorem findPath_spec (hC : C.Total) (pathId : String) : ∀ paths : List PossibilityPath,
    (∃ p ∈ paths, p.pathId C = .ok pathId ∧ findPath C pathId paths = .ok (some p)) ∨
      findPath C pathId paths = .ok none ∧ ∀ p ∈ paths, p.pathId C ≠ .ok pathId
  | [] => .inr ⟨rfl, by simp⟩
  | p :: paths => by
    obtain ⟨d, hd⟩ := p.pathId_ok hC
    by_cases heq : d = pathId
    · exact .inl ⟨p, List.mem_cons_self, heq ▸ hd, by simp [findPath, hd, heq, bind, Except.bind]⟩
    · have hnext : findPath C pathId (p :: paths) = findPath C pathId paths := by
        simp [findPath, hd, heq, bind, Except.bind]
      rw [hnext]
      refine (findPath_spec hC pathId paths).imp ?_ ?_
      · rintro ⟨p', hp', hid, hfind⟩
        exact ⟨p', List.mem_cons_of_mem p hp', hid, hfind⟩
      · rintro ⟨hfind, hnone⟩
        refine ⟨hfind, List.forall_mem_cons.mpr ⟨?_, hnone⟩⟩
        rw [hd]
        exact fun h => heq (Except.ok.inj h)

theorem construct_recipe_ok {payload : RecipePayload} {recipeDigest : String}
    (hfilled : payload.pathId ≠ "" ∧ payload.irreversibleMorphismId ≠ "" ∧
      payload.sourceReceiptRefs ≠ [] ∧ recipeDigest ≠ "")
    (hcut : payload.irreversibleMorphismId ∉ payload.reversibleMorphismIds)
    (hdigest : C.digest payload.modelDump = .ok recipeDigest) :
    ∃ recipe, CompiledGraphRecipe.construct C payload recipeDigest = .ok recipe ∧
      recipe.toRecipePayload = payload := by
  unfold CompiledGraphRecipe.construct
  rw [dif_pos hfilled, dif_pos hcut]
  split
  · next e he =>
    rw [hdigest] at he
    cases he
  · next d hd =>
    have heq : recipeDigest = d := Except.ok.inj (hdigest.symm.trans hd)
    rw [dif_pos heq]
    exact ⟨_, rfl, rfl⟩

variable {identity : GraphRecipeIdentity} {exploration : ExplorationResult}
  {pathId morphismId : String} {sourceReceiptRefs : List String}

/-- A route that is listed, with its edge in the frontier, is compiled. -/
theorem compile_of_found (hC : C.Total) (hN : C.NamesDicts)
    (hgraph : exploration.graphDigest = identity.graphDigest) {path : PossibilityPath}
    (hpath : findPath C pathId exploration.paths = .ok (some path))
    {edge : IrreversibleFrontierEdge} (hedge : exploration.frontierEdge? pathId morphismId = some edge)
    (hrefs : sourceReceiptRefs ≠ []) (hnamed : pathId ≠ "" ∧ morphismId ≠ "")
    (hcut : morphismId ∉ path.morphismIds) :
    ∃ recipe, compileGraphRecipe C identity exploration pathId morphismId sourceReceiptRefs =
        .ok recipe ∧
      recipe.toRecipePayload = ⟨identity, pathId, path.morphismIds, morphismId, sourceReceiptRefs⟩ := by
  obtain ⟨d, hd⟩ := hC.digest
    (v := RecipePayload.modelDump ⟨identity, pathId, path.morphismIds, morphismId, sourceReceiptRefs⟩)
    (by simp [RecipePayload.modelDump, GraphRecipeIdentity.modelDump])
  obtain ⟨recipe, hrecipe, hpayload⟩ :=
    construct_recipe_ok ⟨hnamed.1, hnamed.2, hrefs, hN _ _ hd⟩ hcut hd
  refine ⟨recipe, ?_, hpayload⟩
  simp only [compileGraphRecipe, hgraph, ne_eq, not_true_eq_false, if_false, bind, Except.bind, hpath,
    hedge, hrefs]
  rw [hd]
  exact hrecipe

/-- A recipe of an exploration is admitted there. -/
theorem admit_of_compiled {recipe : CompiledGraphRecipe C} {path : PossibilityPath}
    (hpayload : recipe.toRecipePayload =
      ⟨identity, pathId, path.morphismIds, morphismId, sourceReceiptRefs⟩)
    (hgraph : exploration.graphDigest = identity.graphDigest)
    (hpath : findPath C pathId exploration.paths = .ok (some path))
    {edge : IrreversibleFrontierEdge}
    (hedge : exploration.frontierEdge? pathId morphismId = some edge) :
    ∃ admission, admitGraphRecipe C recipe identity exploration = .ok admission ∧
      admission.admitted = true := by
  refine ⟨hotRecipe recipe.toRecipePayload, ?_, rfl⟩
  simp only [admitGraphRecipe, hpayload, hgraph, ne_eq, not_true_eq_false, if_false, bind,
    Except.bind, hpath, Option.map_some, hedge, reduceCtorEq]
  rfl

end Compiled

/-- What the cut selects is compiled, and admitted, where its path is listed. Where it is not,
the path is the one of no edge at a start. -/
theorem compilable_iff (C : Canon) (hC : C.Total) (hN : C.NamesDicts) (graph : PossibilityGraph)
    (hgraph : graph.Valid) (ctx : AdmissionContext) (limits : ExplorationBounds)
    (startIds : List String) (fuel : ℕ) (exploration : ExplorationResult)
    (hexplore : exploreWithin C graph ctx limits startIds fuel = some (.ok exploration))
    (pathId morphismId : String) (action : ActionDefinition) (prepared : PreparedAction)
    (grant : ExecutionGrant) (selectorRef : String) (basisRefs : List String)
    (currentRevision : Option String) (moment : ℤ) (selection : IrreversibleSelection)
    (hselect : selectIrreversibleCut C graph exploration pathId morphismId action prepared grant
      selectorRef basisRefs currentRevision moment = .ok selection)
    (identity : GraphRecipeIdentity) (hidentity : graph.graphDigest C = .ok identity.graphDigest)
    (sourceReceiptRefs : List String) (hrefs : sourceReceiptRefs ≠ []) :
    ((∃ recipe admission,
        compileGraphRecipe C identity exploration pathId morphismId sourceReceiptRefs = .ok recipe ∧
          admitGraphRecipe C recipe identity exploration = .ok admission ∧
          admission.admitted = true) ↔
      Listed C exploration pathId) ∧
      (¬ Listed C exploration pathId →
        ∃ objectId ∈ startIds, (startPath objectId).pathId C = .ok pathId) := by
  obtain ⟨hcuttable, -⟩ := cuttable_of_select hselect
  obtain ⟨edge, hedge, -⟩ := hcuttable.frontier
  obtain ⟨morphism, hmorphism, hphase⟩ := hcuttable.morphism
  have hdigest : exploration.graphDigest = identity.graphDigest :=
    Except.ok.inj (hcuttable.graphDigest.symm.trans hidentity)
  have hid : morphismId ≠ "" := by
    have hfound : morphism.morphismId = morphismId := by simpa using List.find?_some hmorphism
    exact hfound ▸ morphism.morphismId_ne
  refine ⟨⟨?_, ?_⟩, ?_⟩
  · rintro ⟨recipe, -, hcompile, -⟩
    rcases findPath_spec hC pathId exploration.paths with ⟨p, hp, hpathId, -⟩ | ⟨hnone, -⟩
    · exact ⟨p, hp, hpathId⟩
    · simp only [compileGraphRecipe, hdigest, ne_eq, not_true_eq_false, if_false, bind, Except.bind,
        hnone] at hcompile
      cases hcompile
  · rintro ⟨p, hp, hpathId⟩
    rcases findPath_spec hC pathId exploration.paths with ⟨path, hpath, -, hfind⟩ | ⟨-, hnone⟩
    · obtain ⟨recipe, hcompile, hpayload⟩ := compile_of_found hC hN hdigest hfind hedge hrefs
        ⟨hcuttable.named.1, hid⟩ (do_notMem_route hgraph hexplore hpath hmorphism hphase)
      obtain ⟨admission, hadmit⟩ := admit_of_compiled hpayload hdigest hfind hedge
      exact ⟨recipe, admission, hcompile, hadmit⟩
    · exact (hnone p hp hpathId).elim
  · intro hlisted
    obtain ⟨p, hp, hpathId⟩ := taken_of_mem_frontier hexplore hcuttable.complete
      (List.mem_of_find?_eq_some hedge)
    have hedgeId : edge.pathId = pathId := by
      have := List.find?_some hedge
      simp only [Bool.and_eq_true, beq_iff_eq] at this
      exact this.1
    rw [hedgeId] at hpathId
    rcases hp with hp | ⟨objectId, ho, rfl⟩
    · exact (hlisted ⟨p, hp, hpathId⟩).elim
    · exact ⟨objectId, ho, hpathId⟩

/-- The identity of a problem on a graph. -/
def recipeIdentity (graphDigest : String) (h : graphDigest ≠ "") : GraphRecipeIdentity :=
  ⟨"problem", "environment", "authority", "policy", "verifier", "contract", graphDigest,
    by simp [h]⟩

theorem compilable_sample :
    ∃ result pathId identity recipe admission,
      sampleExploration = some (.ok result) ∧
      compileGraphRecipe .reference identity result pathId "act" ["receipt"] = .ok recipe ∧
      admitGraphRecipe .reference recipe identity result = .ok admission ∧
      admission.admitted = true := by
  obtain ⟨result, pathId, hresult, selection, hselect⟩ :=
    select_of_foundDo sampleGraph ["a"] 6 sampleDoEdge (by decide +kernel) (by decide +kernel) rfl
  have hdigest := graphDigest_of_explore hresult
  have hiff := compilable_iff .reference Canon.reference_total Canon.reference_namesDicts sampleGraph
    sampleGraph_valid sampleContext sampleBounds ["a"] 6 result hresult pathId "act" _ _ _
    "urn:gymact:selector" [] none 0 selection hselect
    (recipeIdentity result.graphDigest (Canon.reference_namesDicts _ _ hdigest)) hdigest ["receipt"]
    (by simp)
  have hlisted : Listed .reference result pathId := by
    have hall : sampleExploration.map (fun r => r.map fun r => r.irreversibleFrontier.all fun f =>
        r.paths.any fun p => (p.pathId .reference).toOption == some f.pathId) = some (.ok true) := by
      decide +kernel
    obtain ⟨edge, hedge, -⟩ := (cuttable_of_select hselect).1.frontier
    have hid := List.find?_some hedge
    simp only [Bool.and_eq_true, beq_iff_eq] at hid
    rw [sampleExploration, hresult] at hall
    simp only [Option.map_some, Except.map, Option.some.injEq, Except.ok.injEq, List.all_eq_true,
      List.any_eq_true, beq_iff_eq] at hall
    obtain ⟨p, hp, hpathId⟩ := hall edge (List.mem_of_find?_eq_some hedge)
    rw [hid.1] at hpathId
    refine ⟨p, hp, ?_⟩
    cases hd : p.pathId .reference with
    | error e =>
      rw [hd] at hpathId
      cases hpathId
    | ok d =>
      rw [hd] at hpathId
      rw [Option.some.inj hpathId]
  obtain ⟨recipe, admission, hcompile, hadmit, hadmitted⟩ := hiff.1.mpr hlisted
  exact ⟨result, pathId, _, recipe, admission, hresult, hcompile, hadmit, hadmitted⟩

/-- At the start `b` itself the DO edge is cut, and not compiled. -/
theorem start_not_compiled :
    ∃ result pathId, exploreWithin .reference sampleGraph sampleContext sampleBounds ["b"] 6 =
        some (.ok result) ∧
      (∃ selection, selectIrreversibleCut .reference sampleGraph result pathId "act"
        (sampleRequest sampleSubject).action (sampleRequest sampleSubject).prepared
        (sampleRequest sampleSubject).grant "urn:gymact:selector" [] none 0 = .ok selection) ∧
      ∀ identity refs, identity.graphDigest = result.graphDigest →
        compileGraphRecipe .reference identity result pathId "act" refs =
          .error (valueError "COMPILE_OUT_PATH_NOT_IN_EXPLORATION") := by
  obtain ⟨result, pathId, hresult, hselect⟩ :=
    select_of_foundDo sampleGraph ["b"] 6 sampleDoEdge (by decide +kernel) (by decide +kernel) rfl
  refine ⟨result, pathId, hresult, hselect, fun identity refs hidentity => ?_⟩
  have hpaths : (exploreWithin .reference sampleGraph sampleContext sampleBounds ["b"] 6).map
      (fun r => r.map ExplorationResult.paths) = some (.ok []) := by decide +kernel
  rw [hresult] at hpaths
  have hnone : result.paths = [] := by simpa [Except.map] using hpaths
  simp only [compileGraphRecipe, hidentity, ne_eq, not_true_eq_false, if_false, hnone, findPath, bind,
    Except.bind]
  rfl

end GymAct
