import Mathlib.Data.Finset.Sort
import GymAct.Dependence
import GymAct.Fallible
import GymAct.Models
import GymAct.Runs

/-!
# The dependency world

`DependencyWorldEnvironment` : procedures change the direct status of an asset, and
`_simulate` propagates the change, breadth first, to whatever requires it. The assets, their
requirements and the bounds are those of a catalog.

The propagation queues an asset again only at a smaller depth, so it evaluates every asset
once. Failures propagate wherever they should. A recovery reaches an asset before one that it
requires if that one is farther from the target, and then leaves it degraded.
`propagation_settles` : in runs without such a recovery, every asset has the status it should
have.
-/

namespace GymAct

namespace DependencyWorld

open Breadth (Frontier)

/-! ## The catalog -/

structure DependencyAsset where
  iri : String
  identifier : String
  requires : List String
  initialStatus : String
  deriving DecidableEq, Repr

structure DependencyCapability where
  iri : String
  identifier : String
  family : String
  effectStatus : String
  syntheticOnly : Bool
  deriving DecidableEq, Repr

/-- `DependencyWorldCatalog`. -/
structure Catalog where
  assets : List DependencyAsset
  capabilities : List DependencyCapability
  actorActions : List (String × List String)
  actorVisibility : List (String × List String)
  maxDepth : ℤ
  maxEvents : ℤ
  maxImpactedResources : ℤ
  deriving DecidableEq, Repr

namespace Catalog

variable (catalog : Catalog)

def ids : List String := catalog.assets.map (·.identifier)

/-- `_assets[id]` : of two assets of one identifier, the last. -/
def asset (id : String) : Option DependencyAsset :=
  catalog.assets.reverse.find? (·.identifier = id)

/-- `_iri_to_id`. -/
def iriToId (iri : String) : Option String :=
  (catalog.assets.reverse.find? (·.iri = iri)).map (·.identifier)

/-- `_cap_specs`. -/
def capSpec (iri : String) : Option DependencyCapability :=
  catalog.capabilities.reverse.find? (·.iri = iri)

/-- The identifiers of what an asset requires. -/
def required (a : DependencyAsset) : List String := a.requires.filterMap catalog.iriToId

/-- `_dependencies`. -/
def dependencies (id : String) : List String :=
  match catalog.asset id with
  | some a => catalog.required a
  | none => []

/-- `_reverse`. -/
def reverse (id : String) : List String :=
  ((catalog.ids.filter (id ∈ catalog.dependencies ·)).dedup).insertionSort (· ≤ ·)

end Catalog

/-! ## The environment -/

/-- The statuses of the assets by identifier. -/
abbrev Statuses := String → String

/-- What `DependencyWorldEnvironment` changes. -/
structure World where
  direct : Statuses
  effective : Statuses
  step : ℕ
  history : List Statuses
  closed : Bool := false

/-- A program of an environment. -/
abbrev WorldM (α : Type) := Fallible.Prog PyError World α

section Environment

variable (catalog : Catalog) (actor : String)

/-- `DependencyWorldEnvironment.__init__`. -/
def init : Except PyError World :=
  if catalog.actorActions.lookup actor = none then throw ⟨"ValueError", "UNKNOWN_ACTOR:" ++ actor⟩
  else if catalog.actorVisibility.lookup actor = none then throw ⟨"KeyError", actor⟩
  else
    match (catalog.assets.flatMap (·.requires)).find? fun iri => (catalog.iriToId iri).isNone with
    | some iri => throw ⟨"KeyError", iri⟩
    | none =>
      let direct id := ((catalog.asset id).map (·.initialStatus)).getD "healthy"
      return { direct, effective := direct, step := 0, history := [direct] }

/-- `_desired_status`. -/
def desiredStatus (assetId : String) (direct effective : Statuses) : String :=
  if direct assetId ≠ "healthy" then direct assetId
  else if ∃ dep ∈ catalog.dependencies assetId, effective dep ≠ "healthy" then "degraded"
  else "healthy"

/-- The variables of `_simulate`. -/
structure Simulation where
  effective : Statuses
  changed : Finset String := ∅
  events : ℕ := 0
  frontier : Frontier String

/-- The status of the node taken from the queue. -/
def evaluate (direct : Statuses) (current : String) (s : Simulation) : Except PyError Simulation :=
  let desired := desiredStatus catalog current direct s.effective
  if s.effective current ≠ desired then
    let changed := insert current s.changed
    if (s.events + 1 : ℤ) > catalog.maxEvents then
      throw ⟨"ValueError", "PROPAGATION_MAX_EVENTS_REFUSED"⟩
    else if (changed.card : ℤ) > catalog.maxImpactedResources then
      throw ⟨"ValueError", "PROPAGATION_MAX_IMPACT_REFUSED"⟩
    else return { s with
      effective := Function.update s.effective current desired, changed, events := s.events + 1 }
  else return s

/-- The dependents of the node taken from the queue. -/
def enqueue (current : String) (depth : ℕ) (frontier : Frontier String) :
    Except PyError (Frontier String) :=
  (catalog.reverse current).foldlM (fun frontier dependent =>
    if (depth + 1 : ℤ) > catalog.maxDepth then
      throw ⟨"ValueError", "PROPAGATION_MAX_DEPTH_REFUSED"⟩
    else return frontier.reach (depth + 1) dependent) frontier

/-- The loop of `_simulate`. One round for every asset is enough (`simulate_ends`). -/
def propagate (direct : Statuses) : ℕ → Simulation → Except PyError Simulation
  | 0, s => return s
  | fuel + 1, s =>
    match s.frontier.queue with
    | [] => return s
    | (current, depth) :: rest => do
      let s ← evaluate catalog direct current s
      let frontier ← enqueue catalog current depth ⟨rest, s.frontier.seen⟩
      propagate direct fuel { s with frontier }

/-- `_simulate`, with the direct statuses it propagates. -/
def simulate (w : World) (target effectStatus : String) : Except PyError Simulation :=
  propagate catalog (Function.update w.direct target effectStatus) catalog.ids.length
    { effective := w.effective, frontier := Frontier.start target }

/-- What `actuate` returns. -/
structure ActuateReply where
  procedure : String
  target : String
  directEffect : String
  changedAssets : List String
  beforeStep : ℕ
  afterStep : ℕ
  syntheticOnly : Bool
  deriving DecidableEq, Repr

/-- The checks of `actuate` : the procedure and the target, or why it refuses. -/
def admitCall (w : World) (capability : Capability) (payload : Value) :
    Except PyError (DependencyCapability × String) :=
  if w.closed = true then throw ⟨"RuntimeError", "environment is torn down"⟩
  else
    match (catalog.capSpec capability.iri).filter fun spec =>
        spec.iri ∈ (catalog.actorActions.lookup actor).getD [] with
    | none => throw ⟨"ValueError", "CAPABILITY_NOT_ADMITTED_FOR_ACTOR"⟩
    | some spec =>
      if capability.binding ≠ spec.identifier then
        throw ⟨"ValueError", "CAPABILITY_BINDING_DRIFT"⟩
      else
        match payloadTarget payload with
        | none => throw ⟨"ValueError", "TARGET_OUTSIDE_MATERIALIZED_WORLD_REFUSED"⟩
        | some target =>
          if target ∉ catalog.ids then
            throw ⟨"ValueError", "TARGET_OUTSIDE_MATERIALIZED_WORLD_REFUSED"⟩
          else if (spec.family = "disturbance" ∨ spec.family = "environmental") ∧
              spec.syntheticOnly = false then
            throw ⟨"ValueError", "NON_SYNTHETIC_DISTURBANCE_REFUSED"⟩
          else return (spec, target)
where
  /-- `payload.get("target")` of a dictionary, if it is a string. -/
  payloadTarget : Value → Option String
    | .dict items =>
      match items.lookup "target" with
      | some (.str target) => some target
      | _ => none
    | _ => none

def actuate (capability : Capability) (payload : Value) : WorldM ActuateReply := do
  let w ← get
  match admitCall catalog actor w capability payload with
  | .error e => throw e
  | .ok (spec, target) =>
    match simulate catalog w target spec.effectStatus with
    | .error e => throw e
    | .ok s => do
      modify fun w => { w with
        direct := Function.update w.direct target spec.effectStatus
        effective := s.effective
        step := w.step + 1
        history := w.history ++ [s.effective] }
      return ⟨spec.identifier, target, spec.effectStatus, s.changed.sort (· ≤ ·), w.step,
        w.step + 1, spec.syntheticOnly⟩

/-- One call of `actuate`. It always ends. -/
def stepWorld (w : World) (call : Capability × Value) : Except PyError ActuateReply × World :=
  ((actuate catalog actor call.1 call.2) w).getD (.error ⟨"", ""⟩, w)

end Environment

/-! ## One propagation -/

section Propagation

variable {catalog : Catalog}

/-- An asset requires another. -/
def Catalog.Requires (catalog : Catalog) : String → String → Prop :=
  Dependence.Requires catalog.dependencies

theorem Catalog.mem_reverse {a b : String} :
    a ∈ catalog.reverse b ↔ a ∈ catalog.ids ∧ b ∈ catalog.dependencies a := by
  rw [Catalog.reverse, List.mem_insertionSort, List.mem_dedup, List.mem_filter, decide_eq_true_iff]

theorem Catalog.mem_ids_of_requires {a b : String} (h : b ∈ catalog.dependencies a) :
    a ∈ catalog.ids := by
  unfold Catalog.dependencies at h
  split at h
  · next asset hasset =>
    have hmem := List.mem_of_find?_eq_some hasset
    have hid : asset.identifier = a := by simpa using List.find?_some hasset
    exact hid ▸ List.mem_map_of_mem (List.mem_reverse.mp hmem)
  · cases h

theorem Catalog.mem_reverse_iff {a b : String} :
    a ∈ catalog.reverse b ↔ catalog.Requires a b :=
  Catalog.mem_reverse.trans ⟨And.right, fun h => ⟨Catalog.mem_ids_of_requires h, h⟩⟩

/-- The assets in the order in which a propagation evaluates them. -/
def Catalog.visits (catalog : Catalog) (target : String) : List String :=
  Breadth.visits catalog.reverse catalog.ids.length (Frontier.start target)

theorem visits_order {target : String} (h : target ∈ catalog.ids) :
    Breadth.Order catalog.Requires target (catalog.visits target) ∧
      (Breadth.after catalog.reverse catalog.ids.length (Frontier.start target)).queue = [] := by
  have hnext : ∀ a ∈ catalog.ids, ∀ b ∈ catalog.reverse a, b ∈ catalog.ids :=
    fun _ _ _ hb => (Catalog.mem_reverse.mp hb).1
  have hfollows : (fun a b => a ∈ catalog.reverse b) = catalog.Requires :=
    funext₂ fun _ _ => propext Catalog.mem_reverse_iff
  exact hfollows ▸ Breadth.visits_order hnext h

theorem evaluate_eq_ok {direct : Statuses} {current : String} {s s' : Simulation}
    (h : evaluate catalog direct current s = .ok s') :
    s'.frontier = s.frontier ∧ s'.effective = Function.update s.effective current
      (desiredStatus catalog current direct s.effective) := by
  unfold evaluate at h
  dsimp only at h
  split_ifs at h with hne
  · obtain rfl := Except.ok.inj h
    exact ⟨rfl, rfl⟩
  · obtain rfl := Except.ok.inj h
    rw [← not_not.mp hne, Function.update_eq_self]
    exact ⟨rfl, rfl⟩

theorem enqueue_eq_ok {current : String} {depth : ℕ} {f f' : Frontier String}
    (h : enqueue catalog current depth f = .ok f') :
    f' = Frontier.spread catalog.reverse current depth f := by
  unfold enqueue at h
  unfold Frontier.spread
  generalize catalog.reverse current = dependents at h
  induction dependents generalizing f with
  | nil => exact (Except.ok.inj h).symm
  | cons a dependents ih =>
    obtain ⟨f₁, hf, h⟩ := Fallible.bind_eq_ok.mp h
    split_ifs at hf
    obtain rfl := Except.ok.inj hf
    exact ih h

/-- A propagation that is not refused sweeps the visits. -/
theorem propagate_eq_ok {direct : Statuses} {fuel : ℕ} {s s' : Simulation}
    (h : propagate catalog direct fuel s = .ok s') :
    s'.effective = Dependence.sweep "healthy" "degraded" catalog.dependencies direct s.effective
        (Breadth.visits catalog.reverse fuel s.frontier) ∧
      s'.frontier = Breadth.after catalog.reverse fuel s.frontier := by
  induction fuel generalizing s with
  | zero =>
    obtain rfl := Except.ok.inj h
    exact ⟨rfl, rfl⟩
  | succ fuel ih =>
    rw [propagate] at h
    rw [Breadth.visits, Breadth.after]
    split at h
    · next hqueue =>
      obtain rfl := Except.ok.inj h
      rw [hqueue]
      exact ⟨rfl, rfl⟩
    · next current depth rest hqueue =>
      obtain ⟨s₁, heval, h⟩ := Fallible.bind_eq_ok.mp h
      obtain ⟨frontier, henqueue, h⟩ := Fallible.bind_eq_ok.mp h
      obtain ⟨hfrontier, heffective⟩ := evaluate_eq_ok heval
      obtain rfl := enqueue_eq_ok henqueue
      obtain ⟨hsweep, hafter⟩ := ih h
      rw [hqueue]
      dsimp only at hsweep hafter ⊢
      rw [heffective, hfrontier] at hsweep
      rw [hfrontier] at hafter
      exact ⟨hsweep, hafter⟩

/-- The queue is empty in the end. -/
theorem simulate_ends {w : World} {target effectStatus : String} {s : Simulation}
    (htarget : target ∈ catalog.ids) (h : simulate catalog w target effectStatus = .ok s) :
    s.frontier.queue = [] := by
  rw [(propagate_eq_ok h).2]
  exact (visits_order htarget).2

end Propagation

/-! ## Runs of calls -/

/-- Every asset has its direct status, or is degraded by an asset that it requires. -/
def Propagated (catalog : Catalog) (w : World) : Prop :=
  ∀ a ∈ catalog.assets, w.effective a.identifier =
    if w.direct a.identifier ≠ "healthy" then w.direct a.identifier
    else if ∃ dep ∈ catalog.required a, w.effective dep ≠ "healthy" then "degraded"
    else "healthy"

/-- When a call propagates in time : no asset that gets healthy (all that it rests on is healthy
by itself) is evaluated before an asset that it requires and that was not healthy. -/
def InTime (catalog : Catalog) (actor : String) (w : World) (call : Capability × Value) : Prop :=
  ∀ spec target s, admitCall catalog actor w call.1 call.2 = .ok (spec, target) →
    simulate catalog w target spec.effectStatus = .ok s →
    ∀ pre a post, catalog.visits target = pre ++ a :: post →
      Dependence.Rests "healthy" catalog.dependencies
        (Function.update w.direct target spec.effectStatus) a →
      ∀ dep ∈ catalog.dependencies a, w.effective dep ≠ "healthy" → dep ∈ pre

section Runs

variable {catalog : Catalog} {actor : String}

theorem admitCall_eq_ok {w : World} {capability : Capability} {payload : Value}
    {spec : DependencyCapability} {target : String}
    (h : admitCall catalog actor w capability payload = .ok (spec, target)) :
    target ∈ catalog.ids ∧ admitCall.payloadTarget payload = some target := by
  unfold admitCall at h
  split at h
  · cases h
  split at h
  · cases h
  split at h
  · cases h
  split at h
  · cases h
  · next hpayload =>
    split_ifs at h with htarget
    obtain ⟨-, rfl⟩ := Prod.mk.inj (Except.ok.inj h)
    exact ⟨htarget, hpayload⟩

/-- What a call does : it is refused and changes nothing, or it propagates. -/
theorem wp_actuate (catalog : Catalog) (actor : String) (w : World) (capability : Capability) (payload : Value) :
    Fallible.wp (actuate catalog actor capability payload)
      (fun _ w' => ∃ spec target s, admitCall catalog actor w capability payload =
          .ok (spec, target) ∧ simulate catalog w target spec.effectStatus = .ok s ∧
        w' = { w with
          direct := Function.update w.direct target spec.effectStatus
          effective := s.effective
          step := w.step + 1
          history := w.history ++ [s.effective] })
      (fun _ w' => w' = w) False w := by
  rw [actuate, Fallible.wp_bind, Fallible.wp_get]
  split
  · rfl
  · next spec target hadmit =>
    split
    · rfl
    · next s hs =>
      rw [Fallible.wp_bind, Fallible.wp_modify, Fallible.wp_pure]
      exact ⟨spec, target, s, hadmit, hs, rfl⟩

/-- A call that raises changes nothing. -/
theorem stepWorld_refused {w : World} {call : Capability × Value} {e : PyError}
    (h : (stepWorld catalog actor w call).1 = .error e) : (stepWorld catalog actor w call).2 = w := by
  have hwp := wp_actuate catalog actor w call.1 call.2
  unfold Fallible.wp at hwp
  unfold stepWorld at h ⊢
  split at hwp
  · exact hwp.elim
  · next a w' hrun =>
    rw [hrun] at h
    cases h
  · next e' w' hrun => rw [hrun]; exact hwp

/-- A call in time keeps every asset in the status it should have. -/
theorem settled_step (hacyclic : Dependence.Acyclic catalog.Requires) {w : World}
    {call : Capability × Value}
    (hw : Dependence.Settled "healthy" "degraded" catalog.dependencies w.direct w.effective)
    (hcall : InTime catalog actor w call) :
    Dependence.Settled "healthy" "degraded" catalog.dependencies
      (stepWorld catalog actor w call).2.direct (stepWorld catalog actor w call).2.effective := by
  have hwp := wp_actuate catalog actor w call.1 call.2
  unfold Fallible.wp at hwp
  unfold stepWorld
  split at hwp
  · exact hwp.elim
  · next reply w' hrun =>
    obtain ⟨spec, target, s, hadmit, hs, rfl⟩ := hwp
    rw [hrun]
    have hsweep := (propagate_eq_ok hs).1
    dsimp only [Option.getD_some] at hsweep ⊢
    rw [hsweep]
    refine hw.sweep (visits_order (admitCall_eq_ok hadmit).1).1 hacyclic (by decide)
      (fun a ha => Function.update_of_ne ha _ _) (hcall spec target s hadmit hs)
  · next e w' hrun =>
    rw [hrun, hwp]
    exact hw

/-- At the start every asset is healthy. -/
theorem settled_init {w : World} (hinit : init catalog actor = .ok w)
    (hhealthy : ∀ a ∈ catalog.assets, a.initialStatus = "healthy") :
    Dependence.Settled "healthy" "degraded" catalog.dependencies w.direct w.effective := by
  unfold init at hinit
  split_ifs at hinit
  split at hinit
  · cases hinit
  obtain rfl := Except.ok.inj hinit
  let direct : Statuses := fun id => ((catalog.asset id).map (·.initialStatus)).getD "healthy"
  have hall (id : String) : direct id = "healthy" := by
    cases hasset : catalog.asset id with
    | none => simp [direct, hasset]
    | some a =>
      have ha := hhealthy a (List.mem_reverse.mp (List.mem_of_find?_eq_some hasset))
      simp [direct, hasset, ha]
  intro id
  have hdesired : Dependence.desired "healthy" "degraded" catalog.dependencies direct direct id =
      "healthy" := Dependence.desired_eq (hall id) fun dep _ => hall dep
  exact (hall id).trans hdesired.symm

/-- With distinct identifiers, an asset is the one of its identifier. -/
theorem asset_eq (hdistinct : catalog.ids.Nodup) {a : DependencyAsset} (ha : a ∈ catalog.assets) :
    catalog.asset a.identifier = some a := by
  obtain ⟨b, hb⟩ : ∃ b, catalog.asset a.identifier = some b := by
    refine Option.isSome_iff_exists.mp (List.find?_isSome.mpr ⟨a, List.mem_reverse.mpr ha, ?_⟩)
    simp
  have hmem : b ∈ catalog.assets := List.mem_reverse.mp (List.mem_of_find?_eq_some hb)
  have hid : b.identifier = a.identifier := by simpa using List.find?_some hb
  rw [hb, List.inj_on_of_nodup_map hdistinct hmem ha hid]

theorem propagated_of_settled (hdistinct : catalog.ids.Nodup) {w : World}
    (hw : Dependence.Settled "healthy" "degraded" catalog.dependencies w.direct w.effective) :
    Propagated catalog w := by
  intro a ha
  have hsame : catalog.dependencies a.identifier = catalog.required a := by
    rw [Catalog.dependencies, asset_eq hdistinct ha]
  have hstatus := hw a.identifier
  rwa [Dependence.desired, hsame] at hstatus

end Runs

/-- Where every call propagates in time, every asset has the status it should have, and calls that
are refused change nothing. -/
theorem propagation_settles {catalog : Catalog} {actor : String} {w : World}
    (hinit : init catalog actor = .ok w) (hacyclic : Dependence.Acyclic catalog.Requires)
    (hhealthy : ∀ a ∈ catalog.assets, a.initialStatus = "healthy")
    (hdistinct : catalog.ids.Nodup) (calls : List (Capability × Value))
    (h : ∀ t ∈ Runs.trace (stepWorld catalog actor) w calls, InTime catalog actor t.before t.input) :
    Propagated catalog (Runs.run (stepWorld catalog actor) w calls) ∧
      ∀ t ∈ Runs.trace (stepWorld catalog actor) w calls, ∀ e, t.reply = .error e →
        t.after = t.before := by
  refine ⟨propagated_of_settled hdistinct ?_, fun t ht e he => ?_⟩
  · exact Runs.run_induction (P := fun w : World => Dependence.Settled "healthy" "degraded"
      catalog.dependencies w.direct w.effective)
      (fun _ _ hw hcall => settled_step hacyclic hw hcall) (settled_init hinit hhealthy) h
  · have heq := Runs.reply_eq_of_mem_trace ht
    rw [show t.after = _ from congrArg Prod.snd heq]
    exact stepWorld_refused ((congrArg Prod.fst heq).symm.trans he)

/-! ## A failure and a recovery -/

/-- A catalog with two procedures, one that fails an asset and one that repairs it. -/
def sampleCatalog (assets : List DependencyAsset) : Catalog where
  assets
  capabilities := [⟨"urn:fail", "fail", "maintenance", "failed", true⟩,
    ⟨"urn:repair", "repair", "maintenance", "healthy", true⟩]
  actorActions := [("blue", ["urn:fail", "urn:repair"])]
  actorVisibility := [("blue", [])]
  maxDepth := 9
  maxEvents := 99
  maxImpactedResources := 99

def sampleCall (procedure target : String) : Capability × Value :=
  (⟨"urn:" ++ procedure, procedure, .do, procedure, []⟩, .dict [("target", .str target)])

/-- A cache that requires a store. -/
def sampleChain : Catalog :=
  sampleCatalog [⟨"urn:cache", "cache", ["urn:store"], "healthy"⟩,
    ⟨"urn:store", "store", [], "healthy"⟩]

/-- An api that requires a store, and a cache that requires an index of it. -/
def sampleDiamond : Catalog :=
  sampleCatalog [⟨"urn:api", "api", ["urn:store", "urn:cache"], "healthy"⟩,
    ⟨"urn:cache", "cache", ["urn:index"], "healthy"⟩,
    ⟨"urn:index", "index", ["urn:store"], "healthy"⟩, ⟨"urn:store", "store", [], "healthy"⟩]

/-- What `init` makes of a catalog. -/
def sampleWorld (catalog : Catalog) : World :=
  let direct id := ((catalog.asset id).map (·.initialStatus)).getD "healthy"
  { direct, effective := direct, step := 0, history := [direct] }

/-- The store fails and is repaired. -/
def sampleCalls : List (Capability × Value) := [sampleCall "fail" "store", sampleCall "repair" "store"]

/-- The cache is evaluated after the store that it requires. -/
theorem sampleChain_inTime (w : World) (procedure : String) :
    InTime sampleChain "blue" w (sampleCall procedure "store") := by
  intro spec target s hadmit _ pre a post hvisits _ dep hdep _
  obtain rfl : "store" = target := Option.some.inj (admitCall_eq_ok hadmit).2
  rw [show sampleChain.visits "store" = ["store", "cache"] by decide] at hvisits
  cases pre with
  | nil =>
    obtain rfl : "store" = a := (List.cons.inj hvisits).1
    rw [show sampleChain.dependencies "store" = [] by decide] at hdep
    cases hdep
  | cons b pre =>
    obtain ⟨rfl, hrest⟩ := List.cons.inj hvisits
    cases pre with
    | nil =>
      obtain rfl : "cache" = a := (List.cons.inj hrest).1
      rwa [show sampleChain.dependencies "cache" = ["store"] by decide] at hdep
    | cons c pre => exact absurd (List.cons.inj hrest).2 (by simp)

/-- What an asset requires has a smaller rank. -/
theorem acyclic_of_ranks {catalog : Catalog} (rank : String → ℕ)
    (h : ∀ a ∈ catalog.ids, ∀ b ∈ catalog.dependencies a, rank b < rank a) :
    Dependence.Acyclic catalog.Requires :=
  .of_rank rank fun a b hab => h a (Catalog.mem_ids_of_requires hab) b hab

theorem propagation_settles_sample :
    Propagated sampleChain (Runs.run (stepWorld sampleChain "blue") (sampleWorld sampleChain)
        sampleCalls) ∧
      ∀ t ∈ Runs.trace (stepWorld sampleChain "blue") (sampleWorld sampleChain) sampleCalls,
        ∀ e, t.reply = .error e → t.after = t.before := by
  refine propagation_settles (by rfl) ?_ (by decide) (by decide) _ ?_
  · exact acyclic_of_ranks (fun id => if id = "cache" then 1 else 0) (by decide)
  · simp only [sampleCalls, Runs.trace, List.forall_mem_cons]
    exact ⟨sampleChain_inTime _ _, sampleChain_inTime _ _, List.forall_mem_nil _⟩

/-- The api is evaluated before the cache that it requires, and stays degraded. -/
theorem recovery_lost :
    init sampleDiamond "blue" = .ok (sampleWorld sampleDiamond) ∧
      Dependence.Acyclic sampleDiamond.Requires ∧
      (∀ a ∈ sampleDiamond.assets, a.initialStatus = "healthy") ∧
      ¬ Propagated sampleDiamond (Runs.run (stepWorld sampleDiamond "blue")
        (sampleWorld sampleDiamond) sampleCalls) := by
  refine ⟨rfl, ?_, by decide, fun h => ?_⟩
  · exact acyclic_of_ranks (fun id => if id = "api" then 3 else if id = "cache" then 2 else
      if id = "index" then 1 else 0) (by decide)
  · have happi := h ⟨"urn:api", "api", ["urn:store", "urn:cache"], "healthy"⟩ (by decide)
    revert happi
    decide

end DependencyWorld

end GymAct
