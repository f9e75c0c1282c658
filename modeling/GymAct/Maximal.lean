import GymAct.Combinatorial
import GymAct.Worklist
import Mathlib.Data.List.Induction

/-!
# The maximal reversible closure

`maximal.py` : the explorer that enumerates, from a stack of paths, every bounded path of
admitted reversible morphisms, and lists the DO edges that leave such a path. The `while`
loop takes fuel; `exploreWithin` is `none` when it does not suffice.

`explore_maximal` : as many steps as there are starts and emitted paths suffice; what is
emitted is in the closure (`InClosure`); and when nothing was truncated the closure is
emitted, each path once, with one frontier entry for each DO edge that leaves a path of it
or a start. The paths are a forest of edge sequences under the starts, explored as in
`GymAct.Worklist`.
-/

namespace GymAct

open Worklist

/-! ## `maximal.py` -/

/-- `_reversibility_fence`. -/
def reversibilityFence : ReversalClass → Except PyError String
  | .compensatable => .ok "COMPENSATION_IS_NOT_REVERSIBILITY"
  | .irreversible => .ok "IRREVERSIBLE_EDGE_REQUIRES_CUT"
  | .unknown => .ok "REVERSIBILITY_NOT_ADMITTED"
  | .reversible => .error ⟨"KeyError", ReversalClass.reversible.value⟩

/-- What the loop of `explore_combinatorial_maximum` carries. The top of the stack is its
head. -/
structure ExplorerState where
  stack : List PossibilityPath
  emitted : List PossibilityPath := []
  frontier : List IrreversibleFrontierEdge := []
  evaluations : List MorphismEvaluation := []
  truncationReasons : List String := []
  deriving DecidableEq, Repr

namespace ExplorerState

/-- `evaluations.append`. -/
def evaluated (s : ExplorerState) (evaluation : MorphismEvaluation) : ExplorerState :=
  { s with evaluations := s.evaluations ++ [evaluation] }

/-- `truncation_reasons.add`. -/
def truncate (s : ExplorerState) (reason : String) : ExplorerState :=
  { s with
    truncationReasons :=
      if reason ∈ s.truncationReasons then s.truncationReasons
      else s.truncationReasons ++ [reason] }

theorem truncate_ne_nil (s : ExplorerState) (reason : String) :
    (s.truncate reason).truncationReasons ≠ [] := by
  unfold truncate
  dsimp only
  split
  · exact List.ne_nil_of_mem ‹_›
  · simp

end ExplorerState

section Explore

variable (C : Canon) (graph : PossibilityGraph) (ctx : AdmissionContext) (limits : ExplorationBounds)

/-- A path with one edge more. -/
def extendPath (path : PossibilityPath) (edge : PossibilityMorphism) : PossibilityPath where
  objectIds := path.objectIds ++ [edge.targetId]
  morphismIds := path.morphismIds ++ [edge.morphismId]
  objectives := path.objectives.compose edge.objectives

/-- The frontier entry of a DO edge that leaves a path. -/
def frontierEdge (path : PossibilityPath) (edge : PossibilityMorphism) :
    Except PyError IrreversibleFrontierEdge := do
  let admission ← evaluateMorphism edge ctx
  let pathId ← path.pathId C
  pure
    { pathId, morphismId := edge.morphismId, targetId := edge.targetId,
      standing := admission.standing, admitted := admission.admitted, reason := admission.reason }

/-- One round of the `for` loop; the flag says it was left by `break`. -/
def considerEdge (path : PossibilityPath) (edge : PossibilityMorphism) (s : ExplorerState) :
    Except PyError (ExplorerState × Bool) := do
  let admission ← evaluateMorphism edge ctx
  if edge.phase = .do then
    let pathId ← path.pathId C
    let s := s.evaluated admission
    pure ({ s with
      frontier := s.frontier ++ [
        { pathId, morphismId := edge.morphismId, targetId := edge.targetId,
          standing := admission.standing, admitted := admission.admitted,
          reason := admission.reason }] }, false)
  else if admission.admitted = false then pure (s.evaluated admission, false)
  else if edge.reversal ≠ .reversible then
    let reason ← reversibilityFence edge.reversal
    pure (s.evaluated
      { morphismId := edge.morphismId, standing := .blocked, admitted := false, reason }, false)
  else
    let candidate := extendPath path edge
    if withinBounds candidate.objectives limits = false then
      pure (s.evaluated
        { morphismId := edge.morphismId, standing := .blocked, admitted := false,
          reason := "EXPLORATION_BOUND_EXCEEDED" }, false)
    else
      let s := s.evaluated admission
      if limits.maxPaths ≤ s.emitted.length then
        pure ({ s.truncate "MAX_PATHS" with stack := [] }, true)
      else
        pure ({ s with
          emitted := s.emitted ++ [candidate]
          stack := candidate :: s.stack }, false)

/-- The `for` loop over the edges that leave a path. -/
def considerEdges (path : PossibilityPath) :
    List PossibilityMorphism → ExplorerState → Except PyError ExplorerState
  | [], s => .ok s
  | edge :: edges, s => do
    let (s, stop) ← considerEdge C ctx limits path edge s
    if stop then .ok s else considerEdges path edges s

/-- The body of the `while` loop, for the path it popped. -/
def visit (path : PossibilityPath) (s : ExplorerState) : Except PyError ExplorerState :=
  let outgoing := graph.outgoing path.lastId
  if limits.maxDepth ≤ path.morphismIds.length then
    .ok (if outgoing ≠ [] then s.truncate "MAX_DEPTH" else s)
  else considerEdges C ctx limits path outgoing s

/-- The `while` loop. -/
def exploreLoop : ℕ → ExplorerState → Option (Except PyError ExplorerState)
  | 0, _ => none
  | fuel + 1, s =>
    match s.stack with
    | [] => some (.ok s)
    | path :: stack =>
      match visit C graph ctx limits path { s with stack } with
      | .error e => some (.error e)
      | .ok s => exploreLoop fuel s

/-- The path of no edge at a start. -/
def startPath (objectId : String) : PossibilityPath := { objectIds := [objectId] }

/-- The result of an exploration. -/
def explorationResult (startIds : List String) (s : ExplorerState) :
    Except PyError ExplorationResult := do
  let graphDigest ← graph.graphDigest C
  let paretoPathIds ← (paretoPaths s.emitted).mapM (PossibilityPath.pathId C)
  pure
    { graphDigest, startIds, paths := s.emitted, paretoPathIds,
      irreversibleFrontier := s.frontier, evaluations := s.evaluations,
      truncated := !s.truncationReasons.isEmpty,
      truncationReasons := s.truncationReasons.insertionSort (· ≤ ·) }

/-- `explore_combinatorial_maximum`, with fuel. -/
def exploreWithin (startIds : List String) (fuel : ℕ) :
    Option (Except PyError ExplorationResult) :=
  match startIds.mapM graph.object with
  | .error e => some (.error e)
  | .ok _ =>
    (exploreLoop C graph ctx limits fuel { stack := startIds.map startPath }).map fun outcome =>
      outcome >>= explorationResult C graph startIds

end Explore

/-! ## What one edge does -/

section Step

variable {C : Canon} {graph : PossibilityGraph} {ctx : AdmissionContext}
  {limits : ExplorationBounds} {path : PossibilityPath} {edge : PossibilityMorphism}

/-- An admitted, reversible edge that is not DO. -/
def Traversable (ctx : AdmissionContext) (edge : PossibilityMorphism) : Prop :=
  edge.phase ≠ .do ∧ (∃ admission, evaluateMorphism edge ctx = .ok admission ∧
    admission.admitted = true) ∧ edge.reversal = .reversible

instance (ctx : AdmissionContext) : DecidablePred (Traversable ctx) := fun edge =>
  match h : evaluateMorphism edge ctx with
  | .error e => isFalse fun ⟨_, ⟨_, ha, _⟩, _⟩ => by simp [h] at ha
  | .ok admission =>
    decidable_of_iff (edge.phase ≠ .do ∧ admission.admitted = true ∧ edge.reversal = .reversible)
      (by simp [Traversable, h])

/-- The edge extends the path within the bounds. -/
def Extends (ctx : AdmissionContext) (limits : ExplorationBounds) (path : PossibilityPath)
    (edge : PossibilityMorphism) : Prop :=
  Traversable ctx edge ∧ withinBounds (extendPath path edge).objectives limits = true

instance : DecidablePred (Extends ctx limits path) := fun _ => inferInstanceAs (Decidable (_ ∧ _))

/-- What a round of the `for` loop does : it adds a frontier entry, drops the edge, emits
the longer path, or stops everything. -/
inductive EdgeStep (C : Canon) (ctx : AdmissionContext) (limits : ExplorationBounds)
    (path : PossibilityPath) (edge : PossibilityMorphism) (s : ExplorerState) :
    ExplorerState → Bool → Prop
  | frontier (entry : IrreversibleFrontierEdge) (hphase : edge.phase = .do)
      (hentry : frontierEdge C ctx path edge = .ok entry) (evaluations : List MorphismEvaluation) :
      EdgeStep C ctx limits path edge s
        { s with
          evaluations
          frontier := s.frontier ++ [entry] } false
  | drop (hphase : edge.phase ≠ .do) (hout : ¬ Extends ctx limits path edge)
      (evaluations : List MorphismEvaluation) :
      EdgeStep C ctx limits path edge s { s with evaluations } false
  | emit (hin : Extends ctx limits path edge) (hroom : s.emitted.length < limits.maxPaths)
      (evaluations : List MorphismEvaluation) :
      EdgeStep C ctx limits path edge s
        { s with
          evaluations
          emitted := s.emitted ++ [extendPath path edge]
          stack := extendPath path edge :: s.stack } false
  | stop (s' : ExplorerState) (hstack : s'.stack = []) (hemitted : s'.emitted = s.emitted)
      (hreasons : s'.truncationReasons ≠ []) : EdgeStep C ctx limits path edge s s' true

theorem edgeStep_of_considerEdge {s s' : ExplorerState} {stop : Bool}
    (h : considerEdge C ctx limits path edge s = .ok (s', stop)) :
    EdgeStep C ctx limits path edge s s' stop := by
  unfold considerEdge at h
  cases hadm : evaluateMorphism edge ctx with
  | error e => simp [hadm, bind, Except.bind] at h
  | ok admission =>
    simp only [hadm, bind, Except.bind, pure, Except.pure] at h
    have hadmitted : Traversable ctx edge → admission.admitted = true := by
      rintro ⟨-, ⟨admission', h', hadmitted⟩, -⟩
      rw [hadm] at h'
      cases h'
      exact hadmitted
    split at h
    case isTrue hphase =>
      cases hid : path.pathId C with
      | error e => simp [hid] at h
      | ok pathId =>
        simp only [hid] at h
        cases h
        refine .frontier _ hphase ?_ _
        simp [frontierEdge, hadm, hid, bind, Except.bind, pure, Except.pure]
    case isFalse hphase =>
      split at h
      case isTrue hrefused =>
        cases h
        refine .drop hphase (fun hin => ?_) _
        exact Bool.false_ne_true (hrefused.symm.trans (hadmitted hin.1))
      case isFalse haccepted =>
        split at h
        case isTrue hreversal =>
          split at h
          · cases h
          · cases h
            exact .drop hphase (fun hin => hreversal hin.1.2.2) _
        case isFalse hreversal =>
          have htraversable : Traversable ctx edge :=
            ⟨hphase, ⟨admission, hadm, by simpa using haccepted⟩, not_not.mp hreversal⟩
          split at h
          case isTrue hbounds =>
            cases h
            refine .drop hphase (fun hin => ?_) _
            exact Bool.false_ne_true (hbounds.symm.trans hin.2)
          case isFalse hbounds =>
            have hin : Extends ctx limits path edge := ⟨htraversable, by simpa using hbounds⟩
            split at h
            case isTrue hfull =>
              cases h
              exact .stop _ rfl rfl (ExplorerState.truncate_ne_nil _ _)
            case isFalse hroom =>
              cases h
              exact .emit (s := s) hin (not_le.mp hroom) _

/-- What the `for` loop does : it emits and stacks every longer path and lists every DO
edge, or it stops everything on the way. -/
theorem considerEdges_spec : ∀ (edges : List PossibilityMorphism) {s s' : ExplorerState},
    considerEdges C ctx limits path edges s = .ok s' →
      ∃ longer, longer.IsPrefix ((edges.filter (Extends ctx limits path)).map (extendPath path)) ∧
        s'.emitted = s.emitted ++ longer ∧
        (s.emitted.length ≤ limits.maxPaths → s'.emitted.length ≤ limits.maxPaths) ∧
        (s'.stack = [] ∧ s'.truncationReasons ≠ [] ∨
          longer = (edges.filter (Extends ctx limits path)).map (extendPath path) ∧
            s'.stack = longer.reverse ++ s.stack ∧
            s'.truncationReasons = s.truncationReasons ∧
            s'.frontier.map Except.ok = s.frontier.map Except.ok ++
              (edges.filter (·.phase = .do)).map (frontierEdge C ctx path))
  | [], s, s', h => by
    cases h
    exact ⟨[], by simp⟩
  | edge :: edges, s, s', h => by
    unfold considerEdges at h
    cases hstep : considerEdge C ctx limits path edge s with
    | error e => simp [hstep, bind, Except.bind] at h
    | ok r =>
      obtain ⟨s₁, stop⟩ := r
      simp only [hstep, bind, Except.bind] at h
      cases edgeStep_of_considerEdge hstep with
      | stop _ hstack hemitted hreasons =>
        cases h
        refine ⟨[], List.nil_prefix, by simp [hemitted], fun hle => by simpa [hemitted] using hle,
          Or.inl ⟨hstack, hreasons⟩⟩
      | frontier entry hphase hentry evaluations =>
        obtain ⟨longer, hprefix, hemitted, hle, hend⟩ := considerEdges_spec edges (by simpa using h)
        have hout : ¬ Extends ctx limits path edge := fun hin => hin.1.1 hphase
        refine ⟨longer, by simpa [hout] using hprefix, hemitted, hle, hend.imp_right ?_⟩
        rintro ⟨hall, hstack, hreasons, hfrontier⟩
        refine ⟨by simpa [hout] using hall, hstack, hreasons, ?_⟩
        simpa [hphase, hentry] using hfrontier
      | drop hphase hout evaluations =>
        obtain ⟨longer, hprefix, hemitted, hle, hend⟩ := considerEdges_spec edges (by simpa using h)
        refine ⟨longer, by simpa [hout] using hprefix, hemitted, hle, hend.imp_right ?_⟩
        rintro ⟨hall, hstack, hreasons, hfrontier⟩
        exact ⟨by simpa [hout] using hall, hstack, hreasons, by simpa [hphase] using hfrontier⟩
      | emit hin hroom evaluations =>
        obtain ⟨longer, hprefix, hemitted, hle, hend⟩ := considerEdges_spec edges (by simpa using h)
        refine ⟨extendPath path edge :: longer, ?_, by simp [hemitted], fun _ => hle ?_,
          hend.imp_right ?_⟩
        · simpa [hin] using hprefix
        · simp only [List.length_append, List.length_singleton]
          omega
        · rintro ⟨hall, hstack, hreasons, hfrontier⟩
          exact ⟨by simpa [hin] using hall, by simp [hstack], hreasons,
            by simpa [hin.1.1] using hfrontier⟩

/-- The paths one edge longer that a visit emits. -/
def longerPaths (graph : PossibilityGraph) (ctx : AdmissionContext) (limits : ExplorationBounds)
    (path : PossibilityPath) : List PossibilityPath :=
  if limits.maxDepth ≤ path.morphismIds.length then []
  else ((graph.outgoing path.lastId).filter (Extends ctx limits path)).map (extendPath path)

/-- The frontier entries of the DO edges that leave a path. -/
def frontierEdges (C : Canon) (graph : PossibilityGraph) (ctx : AdmissionContext)
    (path : PossibilityPath) : List (Except PyError IrreversibleFrontierEdge) :=
  ((graph.outgoing path.lastId).filter (·.phase = .do)).map (frontierEdge C ctx path)

/-- What a visit does : it emits and stacks the longer paths and lists the DO edges, or it
says that something was truncated. -/
structure Visits (C : Canon) (graph : PossibilityGraph) (ctx : AdmissionContext)
    (limits : ExplorationBounds) (path : PossibilityPath) (longer : List PossibilityPath)
    (s s' : ExplorerState) : Prop where
  longer_prefix : longer.IsPrefix (longerPaths graph ctx limits path)
  emitted : s'.emitted = s.emitted ++ longer
  room : s.emitted.length ≤ limits.maxPaths → s'.emitted.length ≤ limits.maxPaths
  stack : s'.stack = [] ∨ s'.stack = longer.reverse ++ s.stack
  all : s'.truncationReasons = [] → s.truncationReasons = [] ∧
    longer = longerPaths graph ctx limits path ∧ s'.stack = longer.reverse ++ s.stack ∧
      s'.frontier.map Except.ok = s.frontier.map Except.ok ++ frontierEdges C graph ctx path

theorem visits_of_visit {s s' : ExplorerState}
    (h : visit C graph ctx limits path s = .ok s') :
    ∃ longer, Visits C graph ctx limits path longer s s' := by
  unfold visit at h
  dsimp only at h
  split at h
  case isTrue hdepth =>
    have hlonger : longerPaths graph ctx limits path = [] := by simp [longerPaths, hdepth]
    split at h
    case isTrue hout =>
      cases h
      exact ⟨[], List.nil_prefix, by simp [ExplorerState.truncate], fun hle => hle, Or.inr rfl,
        fun hreasons => absurd hreasons (ExplorerState.truncate_ne_nil _ _)⟩
    case isFalse hout =>
      cases h
      exact ⟨[], List.nil_prefix, by simp, fun hle => hle, Or.inr rfl,
        fun hreasons => ⟨hreasons, hlonger.symm, rfl, by simp [frontierEdges, not_not.mp hout]⟩⟩
  case isFalse hdepth =>
    have hlonger : longerPaths graph ctx limits path =
        ((graph.outgoing path.lastId).filter (Extends ctx limits path)).map (extendPath path) := by
      simp [longerPaths, hdepth]
    obtain ⟨longer, hprefix, hemitted, hroom, hend⟩ := considerEdges_spec _ h
    refine ⟨longer, hlonger ▸ hprefix, hemitted, hroom, hend.imp And.left fun h => h.2.1,
      fun hreasons => ?_⟩
    obtain ⟨-, hne⟩ | ⟨hall, hstack, hsame, hfrontier⟩ := hend
    · exact absurd hreasons hne
    · exact ⟨hsame.symm.trans hreasons, hlonger ▸ hall, hstack, hfrontier⟩

/-! ## The loop -/

/-- What a visit keeps, the loop keeps. -/
theorem exploreLoop_keeps {I : ExplorerState → Prop}
    (hvisit : ∀ path stack s s' longer, s.stack = path :: stack →
      Visits C graph ctx limits path longer { s with stack } s' → I s → I s') :
    ∀ (fuel : ℕ) {s s' : ExplorerState}, exploreLoop C graph ctx limits fuel s = some (.ok s') →
      I s → I s' ∧ s'.stack = []
  | 0, s, s', h, _ => by cases h
  | fuel + 1, s, s', h, hI => by
    unfold exploreLoop at h
    split at h
    case h_1 hstack =>
      cases h
      exact ⟨hI, hstack⟩
    case h_2 path stack hstack =>
      split at h
      · cases h
      case h_2 s₁ hs₁ =>
        obtain ⟨longer, hlonger⟩ := visits_of_visit hs₁
        exact exploreLoop_keeps hvisit fuel h (hvisit path stack s s₁ longer hstack hlonger hI)

/-- Each visit spends one step : of a start, or of a path that was emitted. -/
theorem exploreLoop_terminates : ∀ (fuel : ℕ) {s : ExplorerState},
    s.emitted.length ≤ limits.maxPaths →
      s.stack.length + (limits.maxPaths - s.emitted.length) < fuel →
        ∃ outcome, exploreLoop C graph ctx limits fuel s = some outcome
  | 0, s, _, h => by omega
  | fuel + 1, s, hroom, h => by
    unfold exploreLoop
    split
    · exact ⟨_, rfl⟩
    case h_2 path stack hstack =>
      split
      · exact ⟨_, rfl⟩
      case h_2 s₁ hs₁ =>
        obtain ⟨longer, hlonger⟩ := visits_of_visit hs₁
        have hroom₁ := hlonger.room hroom
        have hlength : s₁.emitted.length = s.emitted.length + longer.length := by
          simp [hlonger.emitted]
        have hspent : s₁.stack.length ≤ longer.length + stack.length := by
          rcases hlonger.stack with hs | hs <;> simp [hs]
        have hbefore : s.stack.length = stack.length + 1 := by simp [hstack]
        exact exploreLoop_terminates fuel hroom₁ (by omega)

/-- More fuel does not matter. -/
theorem exploreLoop_mono : ∀ {fuel fuel' : ℕ} {s : ExplorerState}
    {outcome : Except PyError ExplorerState}, exploreLoop C graph ctx limits fuel s = some outcome →
      fuel ≤ fuel' → exploreLoop C graph ctx limits fuel' s = some outcome
  | fuel + 1, fuel' + 1, s, outcome, h, hle => by
    unfold exploreLoop at h ⊢
    split at h
    · exact h
    · split at h
      · exact h
      · exact exploreLoop_mono h (Nat.le_of_succ_le_succ hle)

/-! ### What can raise -/

theorem considerEdge_returns (hC : C.Total)
    (hedge : ∃ admission, evaluateMorphism edge ctx = .ok admission) (s : ExplorerState) :
    ∃ r, considerEdge C ctx limits path edge s = .ok r := by
  obtain ⟨admission, hadm⟩ := hedge
  obtain ⟨pathId, hid⟩ := path.pathId_ok hC
  unfold considerEdge
  simp only [hadm, hid, bind, Except.bind, pure, Except.pure]
  split
  · exact ⟨_, rfl⟩
  split
  · exact ⟨_, rfl⟩
  split
  case isTrue hreversal =>
    cases hr : edge.reversal with
    | reversible => exact absurd hr hreversal
    | _ => exact ⟨_, rfl⟩
  split
  · exact ⟨_, rfl⟩
  split <;> exact ⟨_, rfl⟩

theorem considerEdges_returns (hC : C.Total) : ∀ (edges : List PossibilityMorphism),
    (∀ edge ∈ edges, ∃ admission, evaluateMorphism edge ctx = .ok admission) →
      ∀ s, ∃ s', considerEdges C ctx limits path edges s = .ok s'
  | [], _, s => ⟨s, rfl⟩
  | edge :: edges, hedges, s => by
    obtain ⟨⟨s₁, stop⟩, hs₁⟩ : ∃ r, considerEdge C ctx limits path edge s = .ok r :=
      considerEdge_returns hC (hedges edge List.mem_cons_self) s
    simp only [considerEdges, hs₁, bind, Except.bind]
    split
    · exact ⟨_, rfl⟩
    · exact considerEdges_returns hC edges (fun e he => hedges e (List.mem_cons_of_mem _ he)) s₁

theorem exploreLoop_returns (hC : C.Total)
    (hedges : ∀ edge ∈ graph.morphisms, ∃ admission, evaluateMorphism edge ctx = .ok admission) :
    ∀ (fuel : ℕ) {s : ExplorerState} {outcome : Except PyError ExplorerState},
      exploreLoop C graph ctx limits fuel s = some outcome → ∃ s', outcome = .ok s'
  | 0, s, outcome, h => by cases h
  | fuel + 1, s, outcome, h => by
    unfold exploreLoop at h
    split at h
    · exact ⟨_, (Option.some.inj h).symm⟩
    case h_2 path stack hstack =>
      obtain ⟨s₁, hs₁⟩ : ∃ s₁, visit C graph ctx limits path { s with stack } = .ok s₁ := by
        unfold visit
        dsimp only
        split
        · exact ⟨_, rfl⟩
        · exact considerEdges_returns hC _ (fun edge he => hedges edge (by simp at he; exact he.1)) _
      rw [hs₁] at h
      exact exploreLoop_returns hC hedges fuel h

theorem explorationResult_returns (hC : C.Total) (hgraph : graph.modelDump.isCanonical = true)
    (startIds : List String) (s : ExplorerState) :
    ∃ result, explorationResult C graph startIds s = .ok result := by
  have hids : ∀ paths : List PossibilityPath,
      ∃ ids, paths.mapM (PossibilityPath.pathId C) = .ok ids := by
    intro paths
    induction paths with
    | nil => exact ⟨[], rfl⟩
    | cons path paths ih =>
      obtain ⟨d, hd⟩ := path.pathId_ok hC
      obtain ⟨ids, hids⟩ := ih
      exact ⟨d :: ids, by simp [List.mapM_cons, hd, hids, bind, Except.bind, pure, Except.pure]⟩
  obtain ⟨d, hd⟩ := hC.digest hgraph
  obtain ⟨ids, hids⟩ := hids (paretoPaths s.emitted)
  simp only [explorationResult, PossibilityGraph.graphDigest, hd, hids, bind, Except.bind, pure,
    Except.pure]
  exact ⟨_, rfl⟩

end Step

/-! ## The closure -/

/-- A sequence of edges from a start. -/
abbrev EdgeSequence := String × List PossibilityMorphism

/-- Where edges lead from an object. -/
def endOf : String → List PossibilityMorphism → String
  | objectId, [] => objectId
  | _, edge :: edges => endOf edge.targetId edges

/-- Each edge starts where the one before it ends. -/
def Adjacent : String → List PossibilityMorphism → Prop
  | _, [] => True
  | objectId, edge :: edges => edge.sourceId = objectId ∧ Adjacent edge.targetId edges

theorem endOf_snoc : ∀ (objectId : String) (edges : List PossibilityMorphism)
    (edge : PossibilityMorphism), endOf objectId (edges ++ [edge]) = edge.targetId
  | _, [], _ => rfl
  | _, first :: edges, edge => endOf_snoc first.targetId edges edge

theorem adjacent_snoc : ∀ (objectId : String) (edges : List PossibilityMorphism)
    (edge : PossibilityMorphism), Adjacent objectId (edges ++ [edge]) ↔
      Adjacent objectId edges ∧ edge.sourceId = endOf objectId edges
  | _, [], _ => by simp [Adjacent, endOf]
  | _, first :: edges, edge => by
    simp only [List.cons_append, Adjacent, endOf, adjacent_snoc first.targetId edges edge, and_assoc]

/-- The fold of `compose`. -/
def composeAll (edges : List PossibilityMorphism) : ObjectiveVector :=
  edges.foldl (fun objectives edge => objectives.compose edge.objectives) {}

/-- The path of a sequence of edges. -/
def pathOf (n : EdgeSequence) : PossibilityPath where
  objectIds := n.1 :: n.2.map PossibilityMorphism.targetId
  morphismIds := n.2.map PossibilityMorphism.morphismId
  objectives := composeAll n.2

theorem lastId_pathOf (objectId : String) (edges : List PossibilityMorphism) :
    (pathOf (objectId, edges)).lastId = endOf objectId edges := by
  rcases List.eq_nil_or_concat edges with rfl | ⟨front, edge, rfl⟩
  · rfl
  · rw [List.concat_eq_append, endOf_snoc]
    simp only [pathOf, PossibilityPath.lastId, List.map_append, List.map_cons, List.map_nil,
      ← List.cons_append, List.getLastD_concat]

theorem extendPath_pathOf (objectId : String) (edges : List PossibilityMorphism)
    (edge : PossibilityMorphism) :
    extendPath (pathOf (objectId, edges)) edge = pathOf (objectId, edges ++ [edge]) := by
  simp [extendPath, pathOf, composeAll, List.foldl_append]

section Closure

variable (graph : PossibilityGraph) (startIds : List String) (ctx : AdmissionContext)
  (limits : ExplorationBounds)

/-- From a start, along adjacent traversable edges of the graph, within the depth, and with
the objectives of every prefix within the bounds. -/
structure ClosurePath (n : EdgeSequence) : Prop where
  start : n.1 ∈ startIds
  edges : ∀ edge ∈ n.2, edge ∈ graph.morphisms
  adjacent : Adjacent n.1 n.2
  traversable : ∀ edge ∈ n.2, Traversable ctx edge
  depth : n.2.length ≤ limits.maxDepth
  bounds : ∀ pre : List PossibilityMorphism, pre.IsPrefix n.2 →
    withinBounds (composeAll pre) limits = true

/-- The bounded maximal reversible closure. -/
def InClosure (n : EdgeSequence) : Prop := n.2 ≠ [] ∧ ClosurePath graph startIds ctx limits n

/-- The sequences one edge longer. -/
def longerSequences (n : EdgeSequence) : List EdgeSequence :=
  if limits.maxDepth ≤ n.2.length then []
  else ((graph.outgoing (endOf n.1 n.2)).filter (Extends ctx limits (pathOf n))).map fun edge =>
    (n.1, n.2 ++ [edge])

/-- The sequences of no edge. -/
def startSequences : List EdgeSequence := startIds.map fun objectId => (objectId, [])

variable {graph startIds ctx limits}

theorem longerPaths_pathOf (n : EdgeSequence) :
    longerPaths graph ctx limits (pathOf n) = (longerSequences graph ctx limits n).map pathOf := by
  obtain ⟨objectId, edges⟩ := n
  unfold longerPaths longerSequences
  simp only [lastId_pathOf]
  split_ifs with h h' h'
  · rfl
  · simp [pathOf] at h
    omega
  · simp [pathOf] at h
    omega
  · rw [List.map_map]
    exact List.map_congr_left fun edge _ => extendPath_pathOf objectId edges edge

theorem withinBounds_default (limits : ExplorationBounds) : withinBounds {} limits = true := by
  have h : ∀ limit ∈ [limits.maxMonetaryCost, limits.maxWallTimeS, limits.maxComputeUnits,
      limits.maxHumanInterventions, limits.maxRiskScore], withinLimit 0 limit = true := by
    intro limit hl
    cases limit with
    | none => rfl
    | some q => simpa [withinLimit] using limits.limits_nonneg _ hl q rfl
  simp only [List.forall_mem_cons] at h
  obtain ⟨h1, h2, h3, h4, h5, -⟩ := h
  simp [withinBounds, h1, h2, h3, h4, h5]

@[simp] theorem closurePath_nil {objectId : String} :
    ClosurePath graph startIds ctx limits (objectId, []) ↔ objectId ∈ startIds := by
  refine ⟨fun h => h.start, fun h => ⟨h, by simp, trivial, by simp, Nat.zero_le _, fun pre hpre => ?_⟩⟩
  rw [List.prefix_nil.mp hpre]
  exact withinBounds_default limits

/-- A longer path is in the closure when the shorter one is and the edge extends it. -/
theorem closurePath_snoc {objectId : String} {edges : List PossibilityMorphism}
    {edge : PossibilityMorphism} :
    ClosurePath graph startIds ctx limits (objectId, edges ++ [edge]) ↔
      ClosurePath graph startIds ctx limits (objectId, edges) ∧
        (objectId, edges ++ [edge]) ∈ longerSequences graph ctx limits (objectId, edges) := by
  have hmem : (objectId, edges ++ [edge]) ∈ longerSequences graph ctx limits (objectId, edges) ↔
      edges.length < limits.maxDepth ∧ (edge ∈ graph.morphisms ∧
        edge.sourceId = endOf objectId edges) ∧ Traversable ctx edge ∧
          withinBounds (composeAll (edges ++ [edge])) limits = true := by
    unfold longerSequences
    dsimp only
    split
    · simp only [List.not_mem_nil, false_iff]
      omega
    · simp only [List.mem_map, List.mem_filter, PossibilityGraph.mem_outgoing, decide_eq_true_eq,
        Extends, extendPath_pathOf, Prod.mk.injEq, true_and, List.append_cancel_left_eq,
        List.cons.injEq, and_true]
      refine ⟨?_, fun h => ⟨edge, ⟨h.2.1, h.2.2⟩, rfl⟩⟩
      rintro ⟨edge, h, rfl⟩
      exact ⟨by omega, h⟩
  rw [hmem]
  constructor
  · intro h
    have hadjacent := (adjacent_snoc _ _ _).mp h.adjacent
    have hdepth : edges.length + 1 ≤ limits.maxDepth := by simpa using h.depth
    refine ⟨⟨h.start, fun e he => h.edges e (List.mem_append_left _ he), hadjacent.1,
      fun e he => h.traversable e (List.mem_append_left _ he), Nat.le_of_succ_le hdepth,
      fun pre hpre => h.bounds pre (hpre.trans (List.prefix_append _ _))⟩, by omega, ⟨?_, hadjacent.2⟩,
      ?_, h.bounds _ List.prefix_rfl⟩
    · exact h.edges edge (by simp)
    · exact h.traversable edge (by simp)
  · rintro ⟨h, hdepth, ⟨hedge, hsource⟩, htraversable, hbounds⟩
    refine ⟨h.start, ?_, (adjacent_snoc _ _ _).mpr ⟨h.adjacent, hsource⟩, ?_, by simpa using Nat.succ_le_of_lt hdepth,
      fun pre hpre => ?_⟩
    · simpa [or_imp, forall_and] using ⟨h.edges, hedge⟩
    · simpa [or_imp, forall_and] using ⟨h.traversable, htraversable⟩
    · rcases List.prefix_concat_iff.mp hpre with rfl | hpre
      · exact hbounds
      · exact h.bounds pre hpre

/-- The closure is what lies below the starts. -/
theorem below_iff {n : EdgeSequence} :
    Below (longerSequences graph ctx limits) (startSequences startIds) n ↔
      InClosure graph startIds ctx limits n := by
  have hlonger : ∀ {x y}, y ∈ longerSequences graph ctx limits x → ∃ edge, y = (x.1, x.2 ++ [edge]) := by
    intro x y hy
    unfold longerSequences at hy
    split at hy
    · cases hy
    · obtain ⟨edge, -, rfl⟩ := List.mem_map.mp hy
      exact ⟨edge, rfl⟩
  constructor
  · intro h
    induction h with
    | @root x y hx hy =>
      obtain ⟨objectId, ho, rfl⟩ := List.mem_map.mp hx
      obtain ⟨edge, rfl⟩ := hlonger hy
      exact ⟨by simp, closurePath_snoc.mpr ⟨closurePath_nil.mpr ho, hy⟩⟩
    | @child x y hx hy ih =>
      obtain ⟨edge, rfl⟩ := hlonger hy
      exact ⟨by simp, closurePath_snoc.mpr ⟨ih.2, hy⟩⟩
  · obtain ⟨objectId, edges⟩ := n
    rintro ⟨hne, h⟩
    induction edges using List.reverseRec with
    | nil => exact absurd rfl hne
    | append_singleton edges edge ih =>
      obtain ⟨hshort, hmem⟩ := closurePath_snoc.mp h
      cases edges with
      | nil =>
        refine .root ?_ hmem
        exact List.mem_map.mpr ⟨objectId, closurePath_nil.mp hshort, rfl⟩
      | cons first rest => exact .child (ih (by simp) hshort) hmem

/-- The sequences are a forest under distinct starts. -/
theorem forest_longerSequences (hgraph : graph.Valid) (hstarts : startIds.Nodup) :
    Forest (longerSequences graph ctx limits) (startSequences startIds) where
  roots_nodup := hstarts.map fun a b h => (Prod.mk.inj h).1
  children_nodup x := by
    unfold longerSequences
    split
    · exact List.nodup_nil
    · refine ((List.Nodup.filter _ ?_).filter _).map fun a b h => ?_
      · exact hgraph.morphismIds.of_map _
      · simpa using h
  parent_unique := by
    intro x x' y hy hy'
    unfold longerSequences at hy hy'
    split at hy
    · cases hy
    split at hy'
    · cases hy'
    obtain ⟨edge, -, rfl⟩ := List.mem_map.mp hy
    obtain ⟨edge', -, h⟩ := List.mem_map.mp hy'
    obtain ⟨h1, h2⟩ := Prod.mk.inj h
    exact Prod.ext h1.symm (List.append_inj_left' h2 rfl).symm
  root_not_child := by
    intro x y hy hroot
    obtain ⟨objectId, -, rfl⟩ := List.mem_map.mp hroot
    unfold longerSequences at hy
    split at hy
    · cases hy
    · obtain ⟨edge, -, h⟩ := List.mem_map.mp hy
      simp at h

/-- One path for each sequence of the closure. -/
theorem pathOf_injective (hgraph : graph.Valid) {n n' : EdgeSequence}
    (h : ClosurePath graph startIds ctx limits n) (h' : ClosurePath graph startIds ctx limits n')
    (he : pathOf n = pathOf n') : n = n' := by
  have hobjects := congrArg PossibilityPath.objectIds he
  have hids := congrArg PossibilityPath.morphismIds he
  have hinj : ∀ {as bs : List PossibilityMorphism}, (∀ a ∈ as, a ∈ graph.morphisms) →
      (∀ b ∈ bs, b ∈ graph.morphisms) →
        as.map PossibilityMorphism.morphismId = bs.map PossibilityMorphism.morphismId → as = bs := by
    intro as
    induction as with
    | nil => intro bs _ _ h; simpa using h.symm
    | cons a as ih =>
      intro bs ha hb h
      cases bs with
      | nil => simp at h
      | cons b bs =>
        obtain ⟨h1, h2⟩ := List.cons.inj h
        simp only [List.forall_mem_cons] at ha hb
        rw [List.inj_on_of_nodup_map hgraph.morphismIds ha.1 hb.1 h1, ih ha.2 hb.2 h2]
  exact Prod.ext (List.cons.inj hobjects).1 (hinj h.edges h'.edges hids)

variable {C : Canon}

/-- Whatever was truncated, the stack holds paths of the closure and starts, and what was
emitted is in the closure. -/
structure SoundState (graph : PossibilityGraph) (startIds : List String) (ctx : AdmissionContext)
    (limits : ExplorationBounds) (s : ExplorerState) : Prop where
  stack : ∀ p ∈ s.stack, ∃ n, ClosurePath graph startIds ctx limits n ∧ p = pathOf n
  emitted : ∀ p ∈ s.emitted, ∃ n, InClosure graph startIds ctx limits n ∧ p = pathOf n

theorem soundState_visit {path : PossibilityPath} {stack longer : List PossibilityPath}
    {s s' : ExplorerState} (hs : s.stack = path :: stack)
    (h : Visits C graph ctx limits path longer { s with stack } s')
    (hi : SoundState graph startIds ctx limits s) : SoundState graph startIds ctx limits s' := by
  obtain ⟨n, hn, rfl⟩ := hi.stack path (by simp [hs])
  have hlonger : ∀ p ∈ longer, ∃ n, InClosure graph startIds ctx limits n ∧ p = pathOf n := by
    intro p hp
    have hmem := h.longer_prefix.subset hp
    rw [longerPaths_pathOf] at hmem
    obtain ⟨n', hn', rfl⟩ := List.mem_map.mp hmem
    refine ⟨n', ?_, rfl⟩
    obtain ⟨objectId, edges⟩ := n
    have hmem' := hn'
    unfold longerSequences at hmem'
    split at hmem'
    · cases hmem'
    · obtain ⟨edge, -, rfl⟩ := List.mem_map.mp hmem'
      exact ⟨by simp, closurePath_snoc.mpr ⟨hn, hn'⟩⟩
  refine ⟨fun p hp => ?_, fun p hp => ?_⟩
  · rcases h.stack with hstack | hstack
    · rw [hstack] at hp
      cases hp
    · rw [hstack] at hp
      rcases List.mem_append.mp hp with hp | hp
      · obtain ⟨n', hn', rfl⟩ := hlonger p (List.mem_reverse.mp hp)
        exact ⟨n', hn'.2, rfl⟩
      · exact hi.stack p (by rw [hs]; exact List.mem_cons_of_mem _ hp)
  · rw [h.emitted] at hp
    exact (List.mem_append.mp hp).elim (hi.emitted p) (hlonger p)

/-- As long as nothing was truncated, the explorer explores the forest of sequences, and
has listed the DO edges of every path it took. -/
def CompleteState (C : Canon) (graph : PossibilityGraph) (startIds : List String)
    (ctx : AdmissionContext) (limits : ExplorationBounds) (s : ExplorerState) : Prop :=
  s.truncationReasons = [] → ∃ taken stack emitted : List EdgeSequence,
    Explored (longerSequences graph ctx limits) (startSequences startIds) taken stack emitted ∧
      s.stack = stack.map pathOf ∧ s.emitted = emitted.map pathOf ∧
        s.frontier.map Except.ok = (taken.map pathOf).flatMap (frontierEdges C graph ctx)

theorem completeState_visit (hgraph : graph.Valid) (hstarts : startIds.Nodup)
    {path : PossibilityPath} {stack longer : List PossibilityPath} {s s' : ExplorerState}
    (hs : s.stack = path :: stack) (h : Visits C graph ctx limits path longer { s with stack } s')
    (hi : CompleteState C graph startIds ctx limits s) :
    CompleteState C graph startIds ctx limits s' := by
  intro hreasons
  obtain ⟨hbefore, hall, hstack, hfrontier⟩ := h.all hreasons
  obtain ⟨taken, waiting, emitted, hexplored, hw, he, hf⟩ := hi hbefore
  rw [hs] at hw
  cases waiting with
  | nil => cases hw
  | cons n waiting =>
    obtain ⟨rfl, rfl⟩ := List.cons.inj hw
    rw [longerPaths_pathOf] at hall
    refine ⟨taken ++ [n], (longerSequences graph ctx limits n).reverse ++ waiting,
      emitted ++ longerSequences graph ctx limits n,
      hexplored.take (forest_longerSequences hgraph hstarts)
        ((List.reverse_perm _).append_right _), ?_, ?_, ?_⟩
    · rw [hstack, hall]
      simp
    · rw [h.emitted, hall]
      simp [he]
    · rw [hfrontier]
      simp [hf]

/-- A result carries the digest of its graph. -/
theorem graphDigest_of_explore {result : ExplorationResult} {fuel : ℕ}
    (h : exploreWithin C graph ctx limits startIds fuel = some (.ok result)) :
    graph.graphDigest C = .ok result.graphDigest := by
  unfold exploreWithin at h
  split at h
  · cases h
  · obtain ⟨outcome, -, houtcome⟩ := Option.map_eq_some_iff.mp h
    cases outcome with
    | error e => cases houtcome
    | ok s =>
      simp only [bind, Except.bind, explorationResult, pure, Except.pure] at houtcome
      split at houtcome
      · cases houtcome
      case h_2 d hd =>
        split at houtcome
        · cases houtcome
        · cases houtcome
          exact hd

theorem mapM_object_ok : ∀ {startIds : List String},
    (∀ objectId ∈ startIds, objectId ∈ graph.objects.map PossibilityObject.objectId) →
      ∃ objects, startIds.mapM graph.object = .ok objects
  | [], _ => ⟨[], rfl⟩
  | objectId :: startIds, h => by
    obtain ⟨objects, hobjects⟩ := mapM_object_ok fun id hid => h id (List.mem_cons_of_mem _ hid)
    obtain ⟨item, hitem, hid⟩ := List.mem_map.mp (h objectId List.mem_cons_self)
    obtain ⟨found, hfound⟩ : ∃ found, graph.object objectId = .ok found := by
      unfold PossibilityGraph.object
      cases hfind : graph.objects.find? fun item => item.objectId == objectId with
      | some found => exact ⟨found, rfl⟩
      | none => exact absurd hid (by simpa using List.find?_eq_none.mp hfind item hitem)
    exact ⟨found :: objects, by
      simp [List.mapM_cons, hfound, hobjects, bind, Except.bind, pure, Except.pure]⟩

/-- The explorer terminates within as many visits as there are starts and emitted paths, and
returns when the starts are known and the graph can be evaluated and digested. What it
emits is in the closure. When nothing was truncated it emits the closure, each
path once, and the frontier lists, for each path of the closure and each start once, the DO
edges that leave it. -/
theorem explore_maximal (C : Canon) (graph : PossibilityGraph) (startIds : List String)
    (ctx : AdmissionContext) (limits : ExplorationBounds) (hgraph : graph.Valid)
    (hstarts : startIds.Nodup) :
    ∃ outcome, (∀ fuel, startIds.length + limits.maxPaths < fuel →
        exploreWithin C graph ctx limits startIds fuel = some outcome) ∧
      (C.Total → graph.modelDump.isCanonical = true →
        (∀ objectId ∈ startIds, objectId ∈ graph.objects.map PossibilityObject.objectId) →
        (∀ edge ∈ graph.morphisms, ∃ admission, evaluateMorphism edge ctx = .ok admission) →
          ∃ result, outcome = .ok result) ∧
      ∀ result, outcome = .ok result →
        (∀ p ∈ result.paths, ∃ n, InClosure graph startIds ctx limits n ∧ p = pathOf n) ∧
        (result.truncated = false →
          (∃ closure : List EdgeSequence,
            (∀ n, n ∈ closure ↔ InClosure graph startIds ctx limits n) ∧ closure.Nodup ∧
              result.paths = closure.map pathOf ∧ result.paths.Nodup) ∧
          ∃ sources : List PossibilityPath,
            sources.Perm (startIds.map startPath ++ result.paths) ∧ sources.Nodup ∧
            result.irreversibleFrontier.map Except.ok =
              sources.flatMap (frontierEdges C graph ctx)) := by
  cases hknown : startIds.mapM graph.object with
  | error e =>
    refine ⟨.error e, fun fuel _ => by simp only [exploreWithin, hknown], ?_, by simp⟩
    intro hC hcanon hids
    obtain ⟨objects, hobjects⟩ := mapM_object_ok hids
    exact absurd (hobjects.symm.trans hknown) (by simp)
  | ok objects =>
    have hpaths : startIds.map startPath = (startSequences startIds).map pathOf := by
      simp [startSequences, Function.comp_def, pathOf, startPath, composeAll]
    obtain ⟨last, hlast⟩ : ∃ last, exploreLoop C graph ctx limits
        (startIds.length + limits.maxPaths + 1) { stack := startIds.map startPath } = some last :=
      exploreLoop_terminates _ (Nat.zero_le _) (by simp)
    refine ⟨last >>= explorationResult C graph startIds, fun fuel hfuel => ?_,
      fun hC hcanon _ hedges => ?_, fun result hresult => ?_⟩
    · simp only [exploreWithin, hknown, exploreLoop_mono hlast hfuel, Option.map_some]
    · obtain ⟨s, rfl⟩ := exploreLoop_returns hC hedges _ hlast
      exact explorationResult_returns hC hcanon startIds s
    cases last with
    | error e => cases hresult
    | ok s =>
      obtain ⟨hsound, -⟩ := exploreLoop_keeps (I := SoundState graph startIds ctx limits)
        (fun _ _ _ _ _ hs h hi => soundState_visit hs h hi) _ hlast
        ⟨fun p hp => by
          obtain ⟨objectId, ho, rfl⟩ := List.mem_map.mp hp
          exact ⟨(objectId, []), closurePath_nil.mpr ho, rfl⟩, by simp⟩
      obtain ⟨hcomplete, hdone⟩ := exploreLoop_keeps (I := CompleteState C graph startIds ctx limits)
        (fun _ _ _ _ _ hs h hi => completeState_visit hgraph hstarts hs h hi) _ hlast
        fun _ => ⟨[], _, [], .init (forest_longerSequences hgraph hstarts), hpaths, rfl, rfl⟩
      have hfields : result.paths = s.emitted ∧ result.irreversibleFrontier = s.frontier ∧
          result.truncated = !s.truncationReasons.isEmpty := by
        simp only [bind, Except.bind, explorationResult, pure, Except.pure] at hresult
        split at hresult
        · cases hresult
        · split at hresult
          · cases hresult
          · cases hresult
            exact ⟨rfl, rfl, rfl⟩
      obtain ⟨hp, hf, ht⟩ := hfields
      refine ⟨hp ▸ hsound.emitted, fun htruncated => ?_⟩
      obtain ⟨taken, waiting, emitted, hexplored, hw, he, hfrontier⟩ :=
        hcomplete (by simpa [ht] using htruncated)
      obtain rfl : waiting = [] := by simpa [hdone] using hw.symm
      have hclosure : ∀ n ∈ startSequences startIds ++ emitted,
          ClosurePath graph startIds ctx limits n := by
        intro n hn
        rcases List.mem_append.mp hn with hn | hn
        · obtain ⟨objectId, ho, rfl⟩ := List.mem_map.mp hn
          exact closurePath_nil.mpr ho
        · exact (below_iff.mp (hexplored.below n hn)).2
      have hnodup : ((startSequences startIds ++ emitted).map pathOf).Nodup :=
        hexplored.nodup.map_on fun n hn n' hn' h =>
          pathOf_injective hgraph (hclosure n hn) (hclosure n' hn') h
      have hsources : (taken.map pathOf).Perm (startIds.map startPath ++ result.paths) := by
        have h := (by simpa using hexplored.perm : taken.Perm _).map pathOf
        rwa [List.map_append, ← hpaths, ← he, ← hp] at h
      refine ⟨⟨emitted, fun n => hexplored.mem_iff.trans below_iff,
        hexplored.nodup.of_append_right, hp.trans he, ?_⟩, taken.map pathOf, hsources, ?_,
        hf ▸ hfrontier⟩
      · rw [hp, he]
        rw [List.map_append] at hnodup
        exact hnodup.of_append_right
      · refine hsources.nodup_iff.mpr ?_
        rwa [hp, he, hpaths, ← List.map_append]

end Closure

/-! ### A graph to look at -/

theorem sampleSource_ne : "a" ≠ "" := by decide

theorem sampleTarget_ne : "b" ≠ "" := by decide

/-- A reversible edge from `a` to `b`. -/
def sampleEdge : PossibilityMorphism :=
  { morphismId := "ab", sourceId := "a", targetId := "b", kind := .enable, phase := .construct,
    reversal := .reversible, sourceId_ne := sampleSource_ne, targetId_ne := sampleTarget_ne }

/-- A DO edge that leaves `b`, bound to the deletion of a cell. -/
def sampleDoEdge : PossibilityMorphism :=
  { morphismId := "act", sourceId := "b", targetId := "b", kind := .actuate, phase := .do,
    requirements := { executionGrantRequired := true }
    attributes := consequenceBindingAttributes
      { actionRef := "urn:gymact:action:delete", subjectRef := "urn:subject",
        capabilityRef := "urn:gymact:memory:capability:delete",
        verifierRef := "urn:gymact:observer", expectedEffectDigest := "digest" }
    sourceId_ne := sampleTarget_ne, targetId_ne := sampleTarget_ne
    powerless := by decide +kernel }

def sampleGraph : PossibilityGraph where
  objects := [{ objectId := "a", kind := .plan, semanticRef := "urn:a",
                objectId_ne := sampleSource_ne },
    { objectId := "b", kind := .action, semanticRef := "urn:b", objectId_ne := sampleTarget_ne }]
  morphisms := [sampleEdge, sampleDoEdge]

theorem sampleGraph_valid : sampleGraph.Valid :=
  sampleGraph.validateTopology_ok_iff.mp (by decide +kernel)

def sampleContext : AdmissionContext := { executionGrantRef := some "urn:gymact:grant" }

def sampleBounds : ExplorationBounds := { maxDepth := 4, maxPaths := 4 }

/-- What the explorer finds from `a`. -/
def sampleExploration : Option (Except PyError ExplorationResult) :=
  exploreWithin .reference sampleGraph sampleContext sampleBounds ["a"] 6

/-- A complete exploration whose frontier is the DO edge of the sample graph, admitted. -/
def foundDo : Option (Except PyError ExplorationResult) → Bool
  | some (.ok result) => !result.truncated &&
    result.irreversibleFrontier.map (fun f => (f.morphismId, f.targetId)) == [("act", "b")] &&
      result.irreversibleFrontier.all fun f => f.admitted && f.pathId != ""
  | _ => false

theorem explore_maximal_sample :
    sampleExploration.map (fun r => r.map fun r => (r.paths, r.truncated)) =
        some (.ok ([pathOf ("a", [sampleEdge])], false)) ∧
      ∀ n, InClosure sampleGraph ["a"] sampleContext sampleBounds n →
        pathOf n = pathOf ("a", [sampleEdge]) := by
  obtain ⟨outcome, hfuel, h⟩ := explore_maximal .reference sampleGraph ["a"] sampleContext
    sampleBounds sampleGraph_valid (by decide)
  have hrun : sampleExploration = some outcome := hfuel 6 (by decide)
  have hfound : sampleExploration.map (fun r => r.map fun r => (r.paths, r.truncated)) =
      some (.ok ([pathOf ("a", [sampleEdge])], false)) := by decide +kernel
  refine ⟨hfound, ?_⟩
  rw [hrun] at hfound
  cases outcome with
  | error e => cases hfound
  | ok result =>
    obtain ⟨hpaths, htruncated⟩ : result.paths = [pathOf ("a", [sampleEdge])] ∧
        result.truncated = false := by simpa [Except.map] using hfound
    obtain ⟨⟨closure, hmem, -, heq, -⟩, -⟩ := (h.2 result rfl).2 htruncated
    intro n hn
    have : pathOf n ∈ result.paths := heq ▸ List.mem_map_of_mem ((hmem n).mpr hn)
    simpa [hpaths] using this

end GymAct
