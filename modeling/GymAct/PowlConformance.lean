import GymAct.PowlRunner

/-!
# Conformance of a log

`powl/conformance.py` : the labels of a log are replayed through `enabled` and `fire`. A label
that several enabled leaves carry is resolved to the smallest of them, and never again.

`check_ocel_conformance_resolves` : the log conforms exactly when the run resolved so exists
and ends final. Where no two enabled leaves share a label, that is every accepting run, and the
complete logs of the runner are among them.
-/

namespace GymAct.Powl

open Fallible (bind_eq_ok)

/-! ## Logs -/

/-- An event of a log, each attribute with the `str` of its value. -/
structure OcelEvent where
  type : String
  attributes : List (String × Option String)
  deriving DecidableEq, Repr

/-- `_FIRE_ACTIVITIES`. -/
def fireActivities : List String := ["powl_structural_fire", "powl_action_binding_error"]

/-- The label an event observes, if it is a fire with a `detail`. -/
def observedLabel (event : OcelEvent) : Option String :=
  if event.type ∈ fireActivities then
    (event.attributes.find? fun a => a.1 = "detail").bind Prod.snd
  else none

/-- `observed_labels_from_events`. -/
def observedLabelsFromEvents (events : List OcelEvent) : List String :=
  events.filterMap observedLabel

/-- What the recorder makes of an event, given the `str` of a result. -/
def FireEvent.toOcel (str : Value → String) (e : FireEvent) : OcelEvent where
  type := e.activity
  attributes :=
    [("standing", some e.standing), ("detail", some e.detail),
      ("steps_taken", some (toString e.stepsTaken))] ++
    (e.actionResult.map fun result => ("action_result", some (str result))).toList ++
    (e.error.map fun error => ("error", some error)).toList

/-! ## Replay -/

/-- `ConformanceResult`. -/
structure ConformanceResult where
  conforms : Bool
  firedCount : ℕ
  observedCount : ℕ
  final : Bool
  divergenceIndex : Option ℕ
  divergenceLabel : Option String
  divergenceEnabledLabels : Option (List String)
  deriving DecidableEq, Repr

section Replay

variable (K : PowlCanon) (model : PowlNode) (bound : ExecutionBound)

/-- The enabled leaves that carry a label, in order. -/
def candidates (m : Marking) (label : String) : List NodePath :=
  ((enabled model m bound).filter fun path => labelOf model path = label).sort (· ≤ ·)

/-- The loop of `check_ocel_conformance`, over the labels not replayed yet. -/
def replayFrom (observedCount : ℕ) :
    List String → ℕ → ℕ → Marking → Except PowlRefusal ConformanceResult
  | [], _, firedCount, m =>
    let final := isFinal model m
    .ok ⟨final, firedCount, observedCount, final, if final then none else some observedCount,
      none, none⟩
  | label :: observed, index, firedCount, m =>
    match candidates model bound m label with
    | [] =>
      let enabledLabels := ((enabled model m bound).val.map (labelOf model)).sort (· ≤ ·)
      .ok ⟨false, firedCount, observedCount, false, some index, some label, some enabledLabels⟩
    | chosen :: _ => do
      let m' ← fire K model m chosen "" bound
      replayFrom observedCount observed (index + 1) (firedCount + 1) m'

/-- `check_ocel_conformance`. -/
def checkOcelConformance (events : List OcelEvent) : Except PowlRefusal ConformanceResult :=
  let observed := observedLabelsFromEvents events
  replayFrom K model bound observed.length observed 0 0 initialMarking

/-- The check reports `conforms=True`. -/
def Conforms (events : List OcelEvent) : Prop :=
  ∃ r, checkOcelConformance K model bound events = .ok r ∧ r.conforms = true

/-- Some run fires leaves with these labels and ends final. -/
def Accepts (labels : List String) : Prop :=
  ∃ calls m, FireRun K model bound calls m ∧
    calls.map (fun call => labelOf model call.1) = labels ∧ isFinal model m = true

/-- Fires that each take the smallest enabled leaf with their label. -/
inductive Resolves : Marking → List NodePath → Marking → Prop
  | nil {m : Marking} : Resolves m [] m
  | cons {m m' m'' : Marking} {path : NodePath} {paths : List NodePath}
    (hmin : ∀ p ∈ enabled model m bound, labelOf model p = labelOf model path → path ≤ p)
    (hfire : fire K model m path "" bound = .ok m') (h : Resolves m' paths m'') :
    Resolves m (path :: paths) m''

/-- No reachable marking enables two leaves with one label. -/
def Unambiguous : Prop :=
  ∀ calls m, FireRun K model bound calls m → ∀ p ∈ enabled model m bound,
    ∀ q ∈ enabled model m bound, labelOf model p = labelOf model q → p = q

end Replay

section Resolve

variable {K : PowlCanon} {model : PowlNode} {bound : ExecutionBound}

theorem mem_candidates {m : Marking} {label : String} {path : NodePath} :
    path ∈ candidates model bound m label ↔
      path ∈ enabled model m bound ∧ labelOf model path = label := by
  rw [candidates, Finset.mem_sort, Finset.mem_filter]

/-- The first candidate is the smallest. -/
theorem le_of_candidates {m : Marking} {label : String} {chosen : NodePath}
    {others : List NodePath} (h : candidates model bound m label = chosen :: others)
    {path : NodePath} (hpath : path ∈ enabled model m bound) (hlabel : labelOf model path = label) :
    chosen ≤ path := by
  have hsorted : (candidates model bound m label).Pairwise (· ≤ ·) := Finset.pairwise_sort _ _
  rw [h, List.pairwise_cons] at hsorted
  have hmem : path ∈ chosen :: others := h ▸ mem_candidates.mpr ⟨hpath, hlabel⟩
  rcases List.mem_cons.mp hmem with rfl | hmem
  · exact le_rfl
  · exact hsorted.1 path hmem

/-- Replaying labels from a marking follows the resolved run from it, if there is one. -/
theorem replayFrom_conforms_iff (observedCount : ℕ) : ∀ (labels : List String)
    (index firedCount : ℕ) (m : Marking),
    (∃ r, replayFrom K model bound observedCount labels index firedCount m = .ok r ∧
        r.conforms = true) ↔
      ∃ paths m', Resolves K model bound m paths m' ∧ paths.map (labelOf model) = labels ∧
        isFinal model m' = true
  | [], index, firedCount, m => by
    constructor
    · rintro ⟨r, hr, hconforms⟩
      obtain rfl := Except.ok.inj hr
      exact ⟨[], m, .nil, rfl, hconforms⟩
    · rintro ⟨paths, m', hresolves, hlabels, hfinal⟩
      obtain rfl := List.map_eq_nil_iff.mp hlabels
      cases hresolves
      exact ⟨_, rfl, hfinal⟩
  | label :: labels, index, firedCount, m => by
    rw [replayFrom]
    cases hcandidates : candidates model bound m label with
    | nil =>
      constructor
      · rintro ⟨r, hr, hconforms⟩
        obtain rfl := Except.ok.inj hr
        exact nomatch hconforms
      · rintro ⟨paths, m', hresolves, hlabels, -⟩
        cases hresolves with
        | nil => exact nomatch hlabels
        | cons hmin hfire h =>
          have hmem := mem_candidates.mpr ⟨(fire_eq_ok.mp hfire).1, (List.cons.inj hlabels).1⟩
          rw [hcandidates] at hmem
          exact nomatch hmem
    | cons chosen others =>
      have hchosen : chosen ∈ enabled model m bound ∧ labelOf model chosen = label :=
        mem_candidates.mp (hcandidates ▸ List.mem_cons_self)
      constructor
      · rintro ⟨r, hr, hconforms⟩
        obtain ⟨m₁, hfire, hr⟩ := bind_eq_ok.mp hr
        obtain ⟨paths, m', hresolves, hlabels, hfinal⟩ :=
          (replayFrom_conforms_iff observedCount labels _ _ m₁).mp ⟨r, hr, hconforms⟩
        refine ⟨chosen :: paths, m', .cons (fun p hp hlabel => ?_) hfire hresolves, ?_, hfinal⟩
        · exact le_of_candidates hcandidates hp (hlabel.trans hchosen.2)
        · rw [List.map_cons, hchosen.2, hlabels]
      · rintro ⟨paths, m', hresolves, hlabels, hfinal⟩
        cases hresolves with
        | nil => exact nomatch hlabels
        | @cons _ m₁ _ path paths hmin hfire h =>
          obtain ⟨hlabel, hlabels⟩ := List.cons.inj hlabels
          -- the smallest leaf with the label is the first candidate
          obtain rfl : path = chosen := le_antisymm
            (hmin chosen hchosen.1 (hchosen.2.trans hlabel.symm))
            (le_of_candidates hcandidates (fire_eq_ok.mp hfire).1 hlabel)
          obtain ⟨r, hr, hconforms⟩ := (replayFrom_conforms_iff observedCount labels (index + 1)
            (firedCount + 1) m₁).mpr ⟨paths, m', h, hlabels, hfinal⟩
          exact ⟨r, bind_eq_ok.mpr ⟨m₁, hfire, hr⟩, hconforms⟩

/-- A resolved run is a run. -/
theorem Resolves.fireAll {m m' : Marking} {paths : List NodePath}
    (h : Resolves K model bound m paths m') :
    fireAll K model bound (paths.map (·, "")) m = .ok m' := by
  induction h with
  | nil => rfl
  | cons _ hfire _ ih => exact bind_eq_ok.mpr ⟨_, hfire, ih⟩

/-- Where labels are unambiguous, every run is resolved. -/
theorem Unambiguous.resolves (hunique : Unambiguous K model bound) : ∀ (paths : List NodePath)
    {calls : List (NodePath × String)} {m m' : Marking}, FireRun K model bound calls m →
    Powl.fireAll K model bound (paths.map (·, "")) m = .ok m' → Resolves K model bound m paths m'
  | [], _, m, m', _, hall => by
    obtain rfl : m = m' := Except.ok.inj hall
    exact .nil
  | path :: paths, calls, m, m', hrun, hall => by
    obtain ⟨m₁, hfire, hall⟩ := bind_eq_ok.mp hall
    refine .cons (fun p hp hlabel => ?_) hfire (hunique.resolves paths (hrun.snoc hfire) hall)
    exact (hunique calls m hrun p hp path (fire_eq_ok.mp hfire).1 hlabel).ge

/-! ## Contexts -/

/-- The marking with other occurrences recorded. -/
def Marking.withCompleted (m : Marking) (completed : Finset OccurrenceKey) : Marking :=
  { m with completed }

theorem isComplete_withCompleted (node : PowlNode) (path : NodePath) (m : Marking)
    (completed : Finset OccurrenceKey) :
    isComplete node path (m.withCompleted completed) = isComplete node path m := by
  rw [Bool.eq_iff_iff, isComplete_iff, isComplete_iff]
  rfl

theorem enabled_withCompleted (m : Marking) (completed : Finset OccurrenceKey) :
    enabled model (m.withCompleted completed) bound = enabled model m bound := by
  ext path
  rw [mem_enabled_iff, mem_enabled_iff]
  rfl

theorem enter_withCompleted (path : NodePath) (m : Marking) (completed : Finset OccurrenceKey)
    (depth : ℕ) :
    enter model path (m.withCompleted completed) depth =
      (enter model path m depth).withCompleted completed := by
  simp only [enter]
  split
  · next n children body i _ _ =>
    have hchild : childComplete children (path.take depth) (m.withCompleted completed) i =
        childComplete children (path.take depth) m i := by
      simp only [childComplete, isComplete_withCompleted]
    rw [hchild, apply_ite (Marking.withCompleted · completed)]
    rfl
  · rfl

theorem closeRound_withCompleted (path : NodePath) (depth : ℕ) (m : Marking)
    (completed : Finset OccurrenceKey) :
    closeRound model path depth (m.withCompleted completed) =
      (closeRound model path depth m).withCompleted completed := by
  simp only [closeRound]
  split
  · rfl
  · next node _ =>
    have hbody : bodyComplete node (path.take depth) (m.withCompleted completed) =
        bodyComplete node (path.take depth) m := by
      rw [Bool.eq_iff_iff, bodyComplete_iff, bodyComplete_iff]
      rfl
    rw [hbody, apply_ite (Marking.withCompleted · completed)]
    rfl

/-- A fire from other occurrences, under another context, records other occurrences only. -/
theorem fire_withCompleted {m m' : Marking} {path : NodePath} {contextSha256 : String}
    (hfire : fire K model m path contextSha256 bound = .ok m') (completed : Finset OccurrenceKey)
    (context : String) : ∃ completed',
      fire K model (m.withCompleted completed) path context bound =
        .ok (m'.withCompleted completed') := by
  obtain ⟨hmem, hfires, node, hnode, hstates, rfl⟩ := fire_eq_ok.mp hfire
  have henter : ∀ (depths : List ℕ) (m : Marking),
      depths.foldl (enter model path) (m.withCompleted completed) =
        (depths.foldl (enter model path) m).withCompleted completed := fun depths m =>
    List.foldl_hom (Marking.withCompleted · completed) fun m depth =>
      enter_withCompleted path m completed depth
  have hclose : ∀ (depths : List ℕ) (m : Marking) (completed : Finset OccurrenceKey),
      depths.foldr (closeRound model path) (m.withCompleted completed) =
        (depths.foldr (closeRound model path) m).withCompleted completed :=
    fun depths m completed =>
      List.foldr_hom (Marking.withCompleted · completed) fun depth m =>
        closeRound_withCompleted path depth m completed
  let working := (List.range path.length).foldl (enter model path) m
  let advanced := advance (working.withCompleted completed) path (K.activityOf node) context
  refine ⟨advanced.completed, fire_eq_ok.mpr ⟨?_, hfires, node, hnode, ?_, ?_⟩⟩
  · rwa [enabled_withCompleted]
  · rw [henter]
    exact hstates
  · rw [henter]
    exact (hclose (List.range path.length)
      (advance working path (K.activityOf node) contextSha256) advanced.completed).symm

/-- A run under any contexts is one under none, but for the occurrences it records. -/
theorem FireRun.forget {calls : List (NodePath × String)} {m : Marking}
    (h : FireRun K model bound calls m) : ∃ completed,
      FireRun K model bound ((calls.map Prod.fst).map (·, "")) (m.withCompleted completed) := by
  induction h with
  | nil => exact ⟨∅, .nil⟩
  | snoc _ hfire ih =>
    obtain ⟨completed, ih⟩ := ih
    obtain ⟨completed', hfire'⟩ := fire_withCompleted hfire completed ""
    refine ⟨completed', ?_⟩
    rw [List.map_append, List.map_append]
    exact ih.snoc hfire'

/-- What is accepted is resolved, where labels are unambiguous. -/
theorem Unambiguous.resolves_of_accepts (hunique : Unambiguous K model bound)
    {labels : List String} (h : Accepts K model bound labels) : ∃ paths m,
      Resolves K model bound initialMarking paths m ∧ paths.map (labelOf model) = labels ∧
        isFinal model m = true := by
  obtain ⟨calls, m, hrun, rfl, hfinal⟩ := h
  obtain ⟨completed, hrun'⟩ := hrun.forget
  refine ⟨calls.map Prod.fst, m.withCompleted completed,
    hunique.resolves _ .nil (fireRun_iff.mp hrun'), by simp, ?_⟩
  rwa [isFinal, isComplete_withCompleted]

/-! ## The runner's log -/

theorem observedLabel_toOcel (str : Value → String) (sessionId : String) (path : NodePath)
    (step : ℕ) (result : Option (Except PyError Value)) :
    observedLabel ((fireEvent model sessionId path step result).toOcel str) =
      some (labelOf model path) := by
  rcases result with - | (e | result) <;> rfl

/-- The labels of a recorded log are those of the leaves fired. -/
theorem observedLabels_eventsFrom (str : Value → String) (sessionId : String)
    (bindings : Bindings) : ∀ (step : ℕ) (paths : List NodePath),
    observedLabelsFromEvents ((eventsFrom model sessionId bindings step paths).map
      (FireEvent.toOcel str)) = paths.map (labelOf model)
  | _, [] => rfl
  | step, path :: paths => by
    have ih := observedLabels_eventsFrom str sessionId bindings (step + 1) paths
    simp only [observedLabelsFromEvents, eventsFrom, List.zipIdx_cons, List.map_cons,
      List.filterMap_cons, observedLabel_toOcel] at ih ⊢
    rw [ih]

/-- A complete recorded log is accepted, whatever its bindings are. -/
theorem accepts_of_runPipeline {spec : PowlPipelineSpec} {sessionId : Option String}
    {bindings : Bindings} {allowPartial : Bool} {fuel : ℕ} {events : List FireEvent}
    {result : PipelineStallResult} (str : Value → String)
    (hrun : runPipeline K model spec sessionId bindings bound allowPartial fuel =
      some (.ok (events, result))) (hfinal : result.final = true) :
    Accepts K model bound (observedLabelsFromEvents (events.map (FireEvent.toOcel str))) := by
  unfold runPipeline at hrun
  split at hrun
  · exact nomatch hrun
  split at hrun
  · exact nomatch hrun
  obtain ⟨ended, hdrive, hended⟩ := Option.map_eq_some_iff.mp hrun
  cases ended with
  | error e => exact nomatch hended
  | ok s =>
    obtain ⟨paths, hran⟩ := Ran.drive fuel .initial hdrive
    obtain ⟨rfl, rfl⟩ := Prod.mk.inj (Except.ok.inj hended)
    refine ⟨_, s.marking, hran.fireRun, ?_, classifyPipelineStall_final.mp hfinal⟩
    rw [hran.events, observedLabels_eventsFrom, List.map_map]
    rfl

end Resolve

/-- A log conforms exactly when the run that takes the smallest leaf with each label exists and
ends final; then some run accepts the log. Where labels are unambiguous any accepting run is
enough, and every complete log of the runner conforms. -/
theorem check_ocel_conformance_resolves (K : PowlCanon) (model : PowlNode) (bound : ExecutionBound)
    (events : List OcelEvent) :
    (Conforms K model bound events ↔ ∃ paths m, Resolves K model bound initialMarking paths m ∧
      paths.map (labelOf model) = observedLabelsFromEvents events ∧ isFinal model m = true) ∧
    (Conforms K model bound events → Accepts K model bound (observedLabelsFromEvents events)) ∧
    (Unambiguous K model bound →
      (Accepts K model bound (observedLabelsFromEvents events) → Conforms K model bound events) ∧
      ∀ str spec sessionId bindings allowPartial fuel fired result,
        runPipeline K model spec sessionId bindings bound allowPartial fuel =
          some (.ok (fired, result)) → result.final = true →
        Conforms K model bound (fired.map (FireEvent.toOcel str))) := by
  have hiff (events : List OcelEvent) := @replayFrom_conforms_iff K model bound
    (observedLabelsFromEvents events).length (observedLabelsFromEvents events) 0 0 initialMarking
  refine ⟨hiff events, fun h => ?_, fun hunique => ⟨fun h => ?_, ?_⟩⟩
  · obtain ⟨paths, m, hresolves, hlabels, hfinal⟩ := (hiff events).mp h
    refine ⟨paths.map (·, ""), m, fireRun_iff.mpr hresolves.fireAll, ?_, hfinal⟩
    rw [List.map_map]
    exact hlabels
  · exact (hiff events).mpr (hunique.resolves_of_accepts h)
  · intro str spec sessionId bindings allowPartial fuel fired result hrun hfinal
    exact (hiff _).mpr (hunique.resolves_of_accepts (accepts_of_runPipeline str hrun hfinal))

/-- `C` after one `A`, and the other `A` after `B`. -/
def twinModel : PowlNode :=
  .partialOrder 4 ![.atom { label := "C", key := "c" }, .atom { label := "A", key := "a1" },
      .atom { label := "B", key := "b" }, .atom { label := "A", key := "a2" }]
    { order := {⟨3, 0⟩, ⟨2, 1⟩}, closure := {⟨3, 0⟩, ⟨2, 1⟩} }

def twinLog : List OcelEvent :=
  ["B", "A", "C", "A"].map fun label => ⟨"powl_structural_fire", [("detail", some label)]⟩

/-- After `B` both `A` are enabled, and the smaller one is not the one `C` waits for. -/
theorem twinModel_greedy : validateModel twinModel = .ok () ∧
    Accepts .reference twinModel defaultBound (observedLabelsFromEvents twinLog) ∧
      ¬Conforms .reference twinModel defaultBound twinLog := by
  obtain ⟨⟨⟩, hvalid⟩ := Fallible.exists_eq_ok_of_isOk (x := validateModel twinModel)
    (by decide +kernel)
  obtain ⟨m, hm, hfinal⟩ := exists_eq_ok_of_any
    (x := fireAll .reference twinModel defaultBound [([2], ""), ([3], ""), ([0], ""), ([1], "")]
      initialMarking) (c := isFinal twinModel) (by decide +kernel)
  obtain ⟨m₁, hfire₁, hmin₁⟩ := exists_eq_ok_of_any
    (x := fire .reference twinModel initialMarking [2] "" defaultBound)
    (c := fun m => decide ([1] ∈ enabled twinModel m defaultBound ∧
      ∀ p ∈ enabled twinModel m defaultBound, [1] ≤ p)) (by decide +kernel)
  obtain ⟨m₂, hfire₂, hnone₂⟩ := exists_eq_ok_of_any
    (x := fireAll .reference twinModel defaultBound [([2], ""), ([1], "")] initialMarking)
    (c := fun m => decide (∀ p ∈ enabled twinModel m defaultBound, labelOf twinModel p ≠ "C"))
    (by decide +kernel)
  have hobserved : observedLabelsFromEvents twinLog = ["B", "A", "C", "A"] := by decide +kernel
  have htwin : labelOf twinModel [1] = "A" := by decide +kernel
  have honly : ∀ p ∈ enabled twinModel initialMarking defaultBound,
      labelOf twinModel p = "B" → p = [2] := by decide +kernel
  refine ⟨hvalid, ⟨_, m, fireRun_iff.mpr hm, by decide +kernel, hfinal⟩, fun h => ?_⟩
  obtain ⟨paths, m', hresolves, hlabels, -⟩ :=
    (@replayFrom_conforms_iff .reference twinModel defaultBound 4 _ 0 0 initialMarking).mp h
  rw [hobserved] at hlabels
  rcases hresolves with - | ⟨-, hfire, - | ⟨hmin', hfire', - | ⟨-, hfire'', -⟩⟩⟩
  · exact nomatch hlabels
  · simp at hlabels
  · simp at hlabels
  · simp only [List.map_cons, List.cons.injEq] at hlabels
    obtain ⟨hB, hA, hC, -⟩ := hlabels
    obtain rfl := honly _ (fire_eq_ok.mp hfire).1 hB
    obtain rfl := Except.ok.inj (hfire₁.symm.trans hfire)
    rw [decide_eq_true_eq] at hmin₁ hnone₂
    obtain rfl := le_antisymm (hmin' [1] hmin₁.1 (htwin.trans hA.symm))
      (hmin₁.2 _ (fire_eq_ok.mp hfire').1)
    obtain ⟨m₁', hfire₁', hm₂⟩ := bind_eq_ok.mp hfire₂
    obtain rfl := Except.ok.inj (hfire₁.symm.trans hfire₁')
    obtain ⟨m₂', hfire₂', hm₂⟩ := bind_eq_ok.mp hm₂
    obtain rfl := Except.ok.inj hm₂
    obtain rfl := Except.ok.inj (hfire₂'.symm.trans hfire')
    exact hnone₂ _ (fire_eq_ok.mp hfire'').1 hC

end GymAct.Powl
