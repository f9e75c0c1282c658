import Mathlib.Data.List.Basic
import Mathlib.Data.List.Nodup
import GymAct.Models
import GymAct.Runs

/-!
# Work in progress of logical agents

`GgenAgentRuntime.invoke` : a call counts itself in under a lock if its agent has room, has its
output manufactured, and counts itself out under the lock again. Calls run concurrently and yield
at their awaits, where a cancelled scope raises.

The release awaits the lock in a `finally`, and in a cancelled scope that await raises as well :
the call then ends without counting itself out. `wip_accounting` : an agent's count is at most its
`max_wip`, and is the number of its calls in flight exactly if no call was cancelled so.
-/

namespace GymAct

namespace GgenAgent

/-! ## Agents -/

/-- `GgenAgentSpec`. -/
structure GgenAgentSpec where
  agentId : String
  roleRef : String
  plannerRef : String
  objectiveRef : String
  observationProjectionRef : String
  actionProjectionRef : String
  packRef : String
  observationKeys : List String := []
  outputKeys : List String := []
  maxWip : ℕ := 1
  mcpToolName : Option String := none
  deriving DecidableEq, Repr

def GgenAgentSpec.modelDump (s : GgenAgentSpec) : Value :=
  .dict [("agent_id", .str s.agentId), ("role_ref", .str s.roleRef),
    ("planner_ref", .str s.plannerRef), ("objective_ref", .str s.objectiveRef),
    ("observation_projection_ref", .str s.observationProjectionRef),
    ("action_projection_ref", .str s.actionProjectionRef), ("pack_ref", .str s.packRef),
    ("observation_keys", .ofStrings s.observationKeys), ("output_keys", .ofStrings s.outputKeys),
    ("max_wip", .int s.maxWip), ("mcp_tool_name", .ofOption s.mcpToolName)]

/-- `GgenAgentResult`. -/
structure GgenAgentResult where
  agentId : String
  standing : Standing
  reason : String
  output : Payload := []
  manufacturerRef : String
  receiptDigest : String
  deriving DecidableEq, Repr

/-- A runtime's agents, with distinct ids, and what it is given. -/
structure Agents where
  specs : List GgenAgentSpec
  distinct : (specs.map (·.agentId)).Nodup
  manufacturerRef : String
  canon : Canon
  /-- The `repr` of a string. -/
  repr : String → String

/-- How a call ends. -/
inductive Outcome
  | returned (result : GgenAgentResult)
  | raised (e : PyError)
  | cancelled
  deriving DecidableEq, Repr

def Outcome.ofExcept : Except PyError GgenAgentResult → Outcome
  | .ok result => .returned result
  | .error e => .raised e

/-! ## What a call computes -/

section Results

variable (G : Agents) (spec : GgenAgentSpec)

/-- The `repr` of a tuple of strings. -/
def tupleRepr : List String → String
  | [s] => "(" ++ G.repr s ++ ",)"
  | items => "(" ++ ", ".intercalate (items.map G.repr) ++ ")"

/-- `_project`. -/
def project (value : Payload) (keys : List String) (kind : String) : Except PyError Payload :=
  if keys = [] then return value
  else
    let missing := keys.filter fun key => (value.lookup key).isNone
    if missing ≠ [] then
      throw ⟨"ValueError", kind ++ "_PROJECTION_MISSING:" ++ tupleRepr G missing⟩
    else return keys.foldl (fun d key => d.set key ((value.lookup key).getD .null)) []

/-- The refusal of a call that finds no room. -/
def refusal (active : ℤ) : Except PyError GgenAgentResult := do
  let receiptDigest ← G.canon.digest (.dict [("agent_id", .str spec.agentId),
    ("standing", .str Standing.refused.value), ("reason", .str "LITTLES_LAW_WIP_LIMIT"),
    ("active_wip", .int active), ("max_wip", .int spec.maxWip)])
  return {
    agentId := spec.agentId
    standing := .refused
    reason := "LITTLES_LAW_WIP_LIMIT"
    manufacturerRef := G.manufacturerRef
    receiptDigest }

/-- The result of a manufacture. -/
def complete (observation inputs produced : Payload) : Except PyError GgenAgentResult := do
  let output ← project G produced spec.outputKeys "ACTION"
  let receiptDigest ← G.canon.digest (.dict [("agent_id", .str spec.agentId),
    ("spec", spec.modelDump), ("observation", .dict observation), ("inputs", .dict inputs),
    ("output", .dict output), ("manufacturer_ref", .str G.manufacturerRef), ("llm_calls", .int 0)])
  return {
    agentId := spec.agentId
    standing := .alive
    reason := "DETERMINISTIC_MANUFACTURE_COMPLETE"
    output
    manufacturerRef := G.manufacturerRef
    receiptDigest }

/-- The result where something raised. -/
def blocked (e : PyError) : Except PyError GgenAgentResult := do
  let receiptDigest ← G.canon.digest (.dict [("agent_id", .str spec.agentId), ("type", .str e.type),
    ("message", .str e.message)])
  return {
    agentId := spec.agentId
    standing := .blocked
    reason := "MANUFACTURE_BLOCKED:" ++ e.type ++ ":" ++ e.message
    manufacturerRef := G.manufacturerRef
    receiptDigest }

/-- What the `try` and its `except` leave. -/
def settle : Except PyError GgenAgentResult → Except PyError GgenAgentResult
  | .ok result => .ok result
  | .error e => blocked G spec e

end Results

/-! ## Calls -/

/-- Where a call stands. -/
inductive Phase
  /-- It awaits the lock to be admitted. -/
  | entering
  /-- It holds the lock. -/
  | entered
  /-- It is admitted, and awaits its manufacture. -/
  | manufacturing (observation : Payload)
  /-- It awaits the lock to be released. -/
  | leaving (outcome : Outcome)
  /-- It holds the lock. -/
  | left (outcome : Outcome)
  | ended (outcome : Outcome)
  /-- It ended in a cancelled await of its release. -/
  | dropped
  deriving DecidableEq, Repr

/-- A call of `invoke`; `cancelled` tells whether its scope is. -/
structure Invocation where
  spec : GgenAgentSpec
  observation : Payload
  inputs : Payload
  cancelled : Bool := false
  phase : Phase := .entering
  deriving DecidableEq, Repr

/-- `_active` and `_lock`, and the calls so far. -/
structure Wip where
  active : String → ℤ := fun _ => 0
  lock : Option ℕ := none
  calls : List Invocation := []

/-- What the manufacturer does : a cancelled await inside it may come through. -/
inductive Manufactured
  | returned (produced : Payload)
  | raised (e : PyError)
  | cancelled
  deriving DecidableEq, Repr

/-- What happens, to which call. -/
inductive Event
  | invoke (agentId : String) (observation inputs : Payload)
  | cancel (t : ℕ)
  /-- An await of the lock ends. -/
  | acquire (t : ℕ)
  /-- A call that holds the lock runs on. -/
  | proceed (t : ℕ)
  /-- A call that was handed the lock is cancelled. -/
  | unwind (t : ℕ)
  | manufactured (t : ℕ) (m : Manufactured)
  deriving DecidableEq, Repr

section Steps

variable (G : Agents)

def Agents.spec? (a : String) : Option GgenAgentSpec := G.specs.find? (·.agentId = a)

/-- A call moves on. -/
def Wip.moved (s : Wip) (t : ℕ) (c : Invocation) (phase : Phase) : Wip :=
  { s with calls := s.calls.set t { c with phase } }

/-- The count of an agent changes, and the lock is free. -/
def Wip.counted (s : Wip) (a : String) (n : ℤ) : Wip :=
  { s with
    active := Function.update s.active a (s.active a + n)
    lock := none }

/-- Where a call stands at its first await after its admission. -/
def admittedPhase (c : Invocation) : Phase :=
  match project G c.observation c.spec.observationKeys "OBSERVATION" with
  | .ok observation => .manufacturing observation
  | .error e => .leaving (.ofExcept (blocked G c.spec e))

/-- The critical section of the admission, and what follows it. -/
def admission (s : Wip) (t : ℕ) (c : Invocation) : Wip :=
  if c.spec.maxWip ≤ s.active c.spec.agentId then
    { s with lock := none }.moved t c
      (.ended (.ofExcept (refusal G c.spec (s.active c.spec.agentId))))
  else (s.counted c.spec.agentId 1).moved t c (admittedPhase G c)

/-- The critical section of the release. -/
def release (s : Wip) (t : ℕ) (c : Invocation) (outcome : Outcome) : Wip :=
  (s.counted c.spec.agentId (-1)).moved t c (.ended outcome)

/-- What a call does with its manufacture. -/
def manufacturedOutcome (c : Invocation) (observation : Payload) : Manufactured → Outcome
  | .returned produced =>
    .ofExcept (settle G c.spec (complete G c.spec observation c.inputs produced))
  | .raised e => .ofExcept (blocked G c.spec e)
  | .cancelled => .cancelled

/-- An event at a call. One that cannot happen changes nothing. -/
def stepCall (s : Wip) (t : ℕ) (c : Invocation) (e : Event) : Wip :=
  match e, c.phase with
  | .acquire _, .entering =>
    if c.cancelled then s.moved t c (.ended .cancelled)
    else if s.lock = none then { s with lock := some t }.moved t c .entered
    else s
  | .acquire _, .leaving outcome =>
    if c.cancelled then s.moved t c .dropped
    else if s.lock = none then { s with lock := some t }.moved t c (.left outcome)
    else s
  | .proceed _, .entered => admission G s t c
  | .proceed _, .left outcome => release s t c outcome
  | .unwind _, .entered =>
    if c.cancelled then { s with lock := none }.moved t c (.ended .cancelled) else s
  | .unwind _, .left _ => if c.cancelled then { s with lock := none }.moved t c .dropped else s
  | .manufactured _ m, .manufacturing observation =>
    if m = .cancelled ∧ c.cancelled = false then s
    else s.moved t c (.leaving (manufacturedOutcome G c observation m))
  | _, _ => s

/-- One event. A call of an unknown agent raises at once. -/
def step (s : Wip) (e : Event) : Except PyError Unit × Wip :=
  match e with
  | .invoke a observation inputs =>
    match G.spec? a with
    | none => (.error ⟨"KeyError", "UNKNOWN_GGEN_AGENT:" ++ a⟩, s)
    | some spec => (.ok (), { s with calls := s.calls ++ [{ spec, observation, inputs }] })
  | .cancel t =>
    match s.calls[t]? with
    | none => (.ok (), s)
    | some c => (.ok (), { s with calls := s.calls.set t { c with cancelled := true } })
  | .acquire t | .proceed t | .unwind t | .manufactured t _ =>
    match s.calls[t]? with
    | none => (.ok (), s)
    | some c => (.ok (), stepCall G s t c e)

end Steps

/-! ## Slots -/

/-- Between its admission and its completion. -/
def Phase.inFlight : Phase → Bool
  | .manufacturing _ | .leaving _ | .left _ => true
  | _ => false

def Phase.isDropped : Phase → Bool
  | .dropped => true
  | _ => false

def Phase.isEnded : Phase → Bool
  | .ended _ | .dropped => true
  | _ => false

/-- A cancelled await of a release. -/
def Invocation.drops (c : Invocation) : Event → Bool
  | .acquire _ => c.cancelled && match c.phase with | .leaving _ => true | _ => false
  | .unwind _ => c.cancelled && match c.phase with | .left _ => true | _ => false
  | _ => false

/-- The call an event is about. -/
def Event.task? : Event → Option ℕ
  | .invoke .. => none
  | .cancel t | .acquire t | .proceed t | .unwind t | .manufactured t _ => some t

/-- The event is a cancelled await of a call's release. -/
def Drops (s : Wip) (e : Event) : Prop :=
  ∃ t c, e.task? = some t ∧ s.calls[t]? = some c ∧ c.drops e = true

namespace Wip

variable (s : Wip) (a : String)

/-- The calls of an agent at some phases. -/
def count (p : Phase → Bool) : ℕ := s.calls.countP fun c => c.spec.agentId = a ∧ p c.phase

/-- The calls of an agent in flight. -/
def inFlight : ℕ := s.count a Phase.inFlight

/-- The calls of an agent that ended without being counted out. -/
def dropped : ℕ := s.count a Phase.isDropped

end Wip

section Moves

variable {G : Agents} {s : Wip} {t : ℕ} {c : Invocation} {e : Event}

/-- What an event at a call does to the count of its agent. -/
inductive Moves (s : Wip) (t : ℕ) (c : Invocation) (drops : Bool) (s' : Wip) : Prop
  | same (h : s' = s) (hdrops : drops = false)
  | aside (phase : Phase) (hcalls : s'.calls = s.calls.set t { c with phase })
      (hactive : s'.active = s.active) (hdrops : drops = false)
      (hinFlight : phase.inFlight = c.phase.inFlight)
      (hdropped : phase.isDropped = c.phase.isDropped)
  | admitted (phase : Phase) (hcalls : s'.calls = s.calls.set t { c with phase })
      (hactive : s'.active = Function.update s.active c.spec.agentId (s.active c.spec.agentId + 1))
      (hdrops : drops = false) (hroom : s.active c.spec.agentId < c.spec.maxWip)
      (hbefore : c.phase.inFlight = false) (hafter : phase.inFlight = true)
      (hdropped : phase.isDropped = c.phase.isDropped)
  | released (outcome : Outcome) (hcalls : s'.calls = s.calls.set t { c with phase := .ended outcome })
      (hactive : s'.active = Function.update s.active c.spec.agentId (s.active c.spec.agentId - 1))
      (hdrops : drops = false) (hbefore : c.phase.inFlight = true)
      (hdropped : c.phase.isDropped = false)
  | dropped (hcalls : s'.calls = s.calls.set t { c with phase := .dropped })
      (hactive : s'.active = s.active) (hdrops : drops = true) (hbefore : c.phase.inFlight = true)
      (hdropped : c.phase.isDropped = false)

theorem stepCall_moves (G : Agents) (s : Wip) (t : ℕ) (c : Invocation) (e : Event) :
    Moves s t c (c.drops e) (stepCall G s t c e) := by
  unfold stepCall
  split
  · next t' hphase =>
    have hdrops : c.drops (.acquire t') = false := by simp [Invocation.drops, hphase]
    split
    · exact .aside _ rfl rfl hdrops (by rw [hphase]; rfl) (by rw [hphase]; rfl)
    · split
      · exact .aside _ rfl rfl hdrops (by rw [hphase]; rfl) (by rw [hphase]; rfl)
      · exact .same rfl hdrops
  · next t' outcome hphase =>
    split
    · next hcancelled =>
      exact .dropped rfl rfl (by simp [Invocation.drops, hphase, hcancelled]) (by rw [hphase]; rfl)
        (by rw [hphase]; rfl)
    · next hcancelled =>
      have hdrops : c.drops (.acquire t') = false := by simp [Invocation.drops, hcancelled]
      split
      · exact .aside _ rfl rfl hdrops (by rw [hphase]; rfl) (by rw [hphase]; rfl)
      · exact .same rfl hdrops
  · next hphase =>
    unfold admission
    split
    · exact .aside _ rfl rfl rfl (by rw [hphase]; rfl) (by rw [hphase]; rfl)
    · next hroom =>
      have hafter : (admittedPhase G c).inFlight = true ∧ (admittedPhase G c).isDropped = false := by
        unfold admittedPhase
        split <;> exact ⟨rfl, rfl⟩
      exact .admitted _ rfl rfl rfl (lt_of_not_ge hroom) (by rw [hphase]; rfl) hafter.1
        (by rw [hphase, hafter.2]; rfl)
  · next outcome hphase =>
    exact .released outcome rfl rfl rfl (by rw [hphase]; rfl) (by rw [hphase]; rfl)
  · next t' hphase =>
    have hdrops : c.drops (.unwind t') = false := by simp [Invocation.drops, hphase]
    split
    · exact .aside _ rfl rfl hdrops (by rw [hphase]; rfl) (by rw [hphase]; rfl)
    · exact .same rfl hdrops
  · next outcome hphase =>
    split
    · next hcancelled =>
      exact .dropped rfl rfl (by simp [Invocation.drops, hphase, hcancelled]) (by rw [hphase]; rfl)
        (by rw [hphase]; rfl)
    · next hcancelled => exact .same rfl (by simp [Invocation.drops, hcancelled])
  · next m observation hphase =>
    split
    · exact .same rfl rfl
    · exact .aside _ rfl rfl rfl (by rw [hphase]; rfl) (by rw [hphase]; rfl)
  · next hleaving _ _ _ hleft _ =>
    refine .same rfl ?_
    unfold Invocation.drops
    split
    · rw [Bool.and_eq_false_iff]
      right
      split
      · next outcome hphase => exact (hleaving _ outcome rfl hphase).elim
      · rfl
    · rw [Bool.and_eq_false_iff]
      right
      split
      · next outcome hphase => exact (hleft _ outcome rfl hphase).elim
      · rfl
    · rfl

/-- Counts when one call changes. -/
theorem countP_set_of_getElem? {p : Invocation → Bool} {calls : List Invocation} {t : ℕ}
    {c : Invocation} (hc : calls[t]? = some c) (c' : Invocation) :
    (calls.set t c').countP p + (if p c then 1 else 0) =
      calls.countP p + if p c' then 1 else 0 := by
  obtain ⟨hlt, rfl⟩ := List.getElem?_eq_some_iff.mp hc
  have hle : (if p calls[t] = true then 1 else 0) ≤ calls.countP p :=
    List.boole_getElem_le_countP hlt
  rw [List.countP_set hlt]
  omega

section Counts

variable {s' : Wip} {drops : Bool} (hc : s.calls[t]? = some c) (a : String)

include hc

theorem count_moved {p : Phase → Bool} {phase : Phase}
    (hcalls : s'.calls = s.calls.set t { c with phase }) :
    s'.count a p + (if c.spec.agentId = a ∧ p c.phase then 1 else 0) =
      s.count a p + if c.spec.agentId = a ∧ p phase then 1 else 0 := by
  have hcount := countP_set_of_getElem? (p := fun c => c.spec.agentId = a ∧ p c.phase) hc
    { c with phase }
  simp only [decide_eq_true_eq] at hcount
  rw [Wip.count, hcalls]
  exact hcount

/-- Moves among phases that are all counted, or all not. -/
theorem count_moved_of_eq {p : Phase → Bool} {phase : Phase}
    (hcalls : s'.calls = s.calls.set t { c with phase }) (h : p phase = p c.phase) :
    s'.count a p = s.count a p := by
  have hcount := count_moved hc a (p := p) hcalls
  rw [h] at hcount
  omega

/-- A drop is one more call of its agent that is never counted out. -/
theorem Moves.dropped_eq (h : Moves s t c drops s') :
    s'.dropped a = s.dropped a + if drops ∧ c.spec.agentId = a then 1 else 0 := by
  unfold Wip.dropped
  rcases h with ⟨rfl, rfl⟩ | ⟨phase, hcalls, -, rfl, -, hdropped⟩ |
    ⟨phase, hcalls, -, rfl, -, -, -, hdropped⟩ | ⟨outcome, hcalls, -, rfl, -, hdropped⟩ |
    ⟨hcalls, -, rfl, -, hdropped⟩
  · simp
  · simp [count_moved_of_eq hc a hcalls hdropped]
  · simp [count_moved_of_eq hc a hcalls hdropped]
  · have hsame : s'.count a Phase.isDropped = s.count a Phase.isDropped :=
      count_moved_of_eq hc a hcalls hdropped.symm
    simp [hsame]
  · have hcount := count_moved hc a (p := Phase.isDropped) hcalls
    rw [hdropped] at hcount
    simpa [Phase.isDropped] using hcount

/-- A call that moves takes its agent's count and its flights along. -/
theorem active_sub_inFlight_moved {phase : Phase} {n : ℤ}
    (hcalls : s'.calls = s.calls.set t { c with phase })
    (hactive : s'.active =
      Function.update s.active c.spec.agentId (s.active c.spec.agentId + n)) :
    s'.active a - s'.inFlight a =
      s.active a - s.inFlight a +
        if c.spec.agentId = a then
          n - (if phase.inFlight then 1 else 0) + if c.phase.inFlight then 1 else 0
        else 0 := by
  have hcount := count_moved hc a (p := Phase.inFlight) hcalls
  have hcounted : s'.active a =
      if a = c.spec.agentId then s.active c.spec.agentId + n else s.active a := by
    rw [hactive, Function.update_apply]
  unfold Wip.inFlight
  by_cases ha : c.spec.agentId = a
  · subst ha
    simp only [true_and, if_true] at hcount hcounted ⊢
    split_ifs at hcount ⊢ <;> omega
  · simp only [ha, Ne.symm ha, false_and, if_false] at hcount hcounted ⊢
    omega

/-- What is counted of an agent and not in flight grows with its drops only. -/
theorem Moves.active_sub_inFlight (h : Moves s t c drops s') :
    s'.active a - s'.inFlight a =
      s.active a - s.inFlight a + if drops ∧ c.spec.agentId = a then 1 else 0 := by
  rcases h with ⟨rfl, rfl⟩ | ⟨phase, hcalls, hactive, rfl, hinFlight, -⟩ |
    ⟨phase, hcalls, hactive, rfl, -, hbefore, hafter, -⟩ |
    ⟨outcome, hcalls, hactive, rfl, hbefore, -⟩ | ⟨hcalls, hactive, rfl, hbefore, -⟩
  · simp
  · simp [Wip.inFlight, count_moved_of_eq hc a hcalls hinFlight, hactive]
  · have hmoved := active_sub_inFlight_moved hc a hcalls hactive
    rw [hbefore, hafter] at hmoved
    simpa using hmoved
  · have hmoved := active_sub_inFlight_moved hc a hcalls hactive
    rw [hbefore, show (Phase.ended outcome).inFlight = false from rfl] at hmoved
    simpa using hmoved
  · have hsame : s'.active =
        Function.update s.active c.spec.agentId (s.active c.spec.agentId + 0) := by
      simp [hactive]
    have hmoved := active_sub_inFlight_moved hc a hcalls hsame
    rw [hbefore, show Phase.dropped.inFlight = false from rfl] at hmoved
    simpa using hmoved

end Counts

/-- The count of an agent is the number of its calls that were counted in and not out. -/
def Counted (s : Wip) : Prop := ∀ a, s.active a = s.inFlight a + s.dropped a

/-- Calls carry specs of the runtime, and counts stay within their limits. -/
structure Bounded (G : Agents) (s : Wip) : Prop where
  specs : ∀ c ∈ s.calls, c.spec ∈ G.specs
  active : ∀ spec ∈ G.specs, s.active spec.agentId ≤ spec.maxWip

/-- A spec is the one of its id. -/
theorem Agents.eq_of_agentId (G : Agents) {spec spec' : GgenAgentSpec} (h : spec ∈ G.specs)
    (h' : spec' ∈ G.specs) (hid : spec.agentId = spec'.agentId) : spec = spec' :=
  List.inj_on_of_nodup_map G.distinct h h' hid

theorem Moves.bounded {s' : Wip} {drops : Bool} (h : Moves s t c drops s')
    (hc : s.calls[t]? = some c) (hs : Bounded G s) : Bounded G s' := by
  have hspec := hs.specs c (List.mem_of_getElem? hc)
  have hspecs {phase : Phase} (hcalls : s'.calls = s.calls.set t { c with phase }) :
      ∀ c' ∈ s'.calls, c'.spec ∈ G.specs := by
    intro c' hc'
    rw [hcalls] at hc'
    rcases List.mem_or_eq_of_mem_set hc' with hc' | rfl
    · exact hs.specs c' hc'
    · exact hspec
  rcases h with ⟨rfl, rfl⟩ | ⟨phase, hcalls, hactive, -, -, -⟩ |
    ⟨phase, hcalls, hactive, -, hroom, -, -, -⟩ | ⟨outcome, hcalls, hactive, -, -, -⟩ |
    ⟨hcalls, hactive, -, -, -⟩
  · exact hs
  · exact ⟨hspecs hcalls, hactive ▸ hs.active⟩
  · refine ⟨hspecs hcalls, fun spec h => ?_⟩
    rw [hactive, Function.update_apply]
    split
    · next hid =>
      rw [G.eq_of_agentId h hspec hid]
      exact hroom
    · exact hs.active spec h
  · refine ⟨hspecs hcalls, fun spec h => ?_⟩
    rw [hactive, Function.update_apply]
    split
    · next hid =>
      have hle := hs.active spec h
      rw [hid] at hle
      omega
    · exact hs.active spec h
  · exact ⟨hspecs hcalls, hactive ▸ hs.active⟩

/-- What leaves every count and every limit as it is. -/
structure Calm (G : Agents) (s s' : Wip) : Prop where
  active : s'.active = s.active
  count : ∀ a p, p .entering = false → s'.count a p = s.count a p
  bounded : Bounded G s → Bounded G s'

theorem Calm.refl (G : Agents) (s : Wip) : Calm G s s := ⟨rfl, fun _ _ _ => rfl, id⟩

/-- A new call counts when it is admitted only. -/
theorem calm_invoke {spec : GgenAgentSpec} (hspec : spec ∈ G.specs) (observation inputs : Payload) :
    Calm G s { s with calls := s.calls ++ [{ spec, observation, inputs }] } where
  active := rfl
  count a p hp := by
    simp [Wip.count, List.countP_append, hp]
  bounded hs := by
    refine ⟨fun c hc => ?_, hs.active⟩
    rcases List.mem_append.mp hc with hc | hc
    · exact hs.specs c hc
    · exact List.mem_singleton.mp hc ▸ hspec

/-- Cancelling a scope moves no call. -/
theorem calm_cancel (hc : s.calls[t]? = some c) :
    Calm G s { s with calls := s.calls.set t { c with cancelled := true } } where
  active := rfl
  count a p _ := by
    have hcount := countP_set_of_getElem? (p := fun c => c.spec.agentId = a ∧ p c.phase) hc
      { c with cancelled := true }
    exact Nat.add_right_cancel hcount
  bounded hs := by
    refine ⟨fun c' hc' => ?_, hs.active⟩
    rcases List.mem_or_eq_of_mem_set hc' with hc' | rfl
    · exact hs.specs c' hc'
    · exact hs.specs c (List.mem_of_getElem? hc)

/-- An event is a move of a call, or changes no count. -/
theorem step_cases (G : Agents) (s : Wip) (e : Event) :
    (¬ Drops s e ∧ Calm G s (step G s e).2) ∨
    ∃ t c, s.calls[t]? = some c ∧ Moves s t c (c.drops e) (step G s e).2 ∧
      (Drops s e ↔ c.drops e = true) := by
  have hnone {t : ℕ} (ht : e.task? = some t) (hc : s.calls[t]? = none) : ¬ Drops s e := by
    rintro ⟨t', c, ht', hc', -⟩
    rw [Option.some.inj (ht.symm.trans ht'), hc'] at hc
    cases hc
  have hsome {t : ℕ} {c : Invocation} (ht : e.task? = some t) (hc : s.calls[t]? = some c) :
      Drops s e ↔ c.drops e = true := by
    refine ⟨?_, fun h => ⟨t, c, ht, hc, h⟩⟩
    rintro ⟨t', c', ht', hc', h⟩
    rw [← Option.some.inj (ht.symm.trans ht'), hc] at hc'
    exact Option.some.inj hc' ▸ h
  have hcall {t : ℕ} (ht : e.task? = some t) (hstep : (step G s e).2 =
      match s.calls[t]? with
      | none => s
      | some c => stepCall G s t c e) :
      (¬ Drops s e ∧ Calm G s (step G s e).2) ∨
      ∃ t c, s.calls[t]? = some c ∧ Moves s t c (c.drops e) (step G s e).2 ∧
        (Drops s e ↔ c.drops e = true) := by
    cases hc : s.calls[t]? with
    | none =>
      rw [hc] at hstep
      exact Or.inl ⟨hnone ht hc, hstep ▸ Calm.refl G s⟩
    | some c =>
      rw [hc] at hstep
      exact Or.inr ⟨t, c, hc, hstep ▸ stepCall_moves G s t c e, hsome ht hc⟩
  cases e with
  | invoke a observation inputs =>
    refine Or.inl ⟨fun ⟨t, c, ht, _⟩ => (by cases ht), ?_⟩
    unfold step
    dsimp only
    split
    · exact Calm.refl G s
    · next spec hspec => exact calm_invoke (List.mem_of_find?_eq_some hspec) observation inputs
  | cancel t =>
    refine Or.inl ⟨fun ⟨t, c, _, _, h⟩ => (by cases h), ?_⟩
    unfold step
    dsimp only
    split
    · exact Calm.refl G s
    · next c hc => exact calm_cancel hc
  | acquire t => exact hcall rfl (by unfold step; dsimp only; split <;> rfl)
  | proceed t => exact hcall rfl (by unfold step; dsimp only; split <;> rfl)
  | unwind t => exact hcall rfl (by unfold step; dsimp only; split <;> rfl)
  | manufactured t m => exact hcall rfl (by unfold step; dsimp only; split <;> rfl)

/-! ### Steps -/

theorem counted_step (hs : Counted s) : Counted (step G s e).2 := by
  intro a
  have ha := hs a
  rcases step_cases G s e with ⟨-, hcalm⟩ | ⟨t, c, hc, hmoves, -⟩
  · rw [hcalm.active, Wip.inFlight, Wip.dropped, hcalm.count a _ rfl, hcalm.count a _ rfl]
    exact ha
  · have hdropped := hmoves.dropped_eq hc a
    have hactive := hmoves.active_sub_inFlight hc a
    by_cases hd : c.drops e = true ∧ c.spec.agentId = a
    · rw [if_pos hd] at hdropped hactive
      omega
    · rw [if_neg hd] at hdropped hactive
      omega

theorem bounded_step (hs : Bounded G s) : Bounded G (step G s e).2 := by
  rcases step_cases G s e with ⟨-, hcalm⟩ | ⟨t, c, hc, hmoves, -⟩
  · exact hcalm.bounded hs
  · exact hmoves.bounded hc hs

theorem dropped_step_of_not (h : ¬ Drops s e) (a : String) :
    (step G s e).2.dropped a = s.dropped a := by
  rcases step_cases G s e with ⟨-, hcalm⟩ | ⟨t, c, hc, hmoves, hdrops⟩
  · exact hcalm.count a _ rfl
  · rw [hmoves.dropped_eq hc a, if_neg fun hd => h (hdrops.mpr hd.1), Nat.add_zero]

theorem dropped_step_le (a : String) : s.dropped a ≤ (step G s e).2.dropped a := by
  rcases step_cases G s e with ⟨-, hcalm⟩ | ⟨t, c, hc, hmoves, -⟩
  · exact (hcalm.count a _ rfl).ge
  · exact hmoves.dropped_eq hc a ▸ Nat.le_add_right _ _

theorem dropped_step_of_drops (h : Drops s e) : ∃ a, 0 < (step G s e).2.dropped a := by
  rcases step_cases G s e with ⟨hnot, -⟩ | ⟨t, c, hc, hmoves, hdrops⟩
  · exact absurd h hnot
  · refine ⟨c.spec.agentId, ?_⟩
    rw [hmoves.dropped_eq hc, if_pos ⟨hdrops.mp h, rfl⟩]
    omega

end Moves

/-! ## Runs -/

section Runs

variable (G : Agents)

theorem dropped_run_le {s : Wip} (events : List Event) (a : String) :
    s.dropped a ≤ (Runs.run (step G) s events).dropped a := by
  induction events generalizing s with
  | nil => exact Nat.le_refl _
  | cons e events ih => exact dropped_step_le a |>.trans ih

/-- A call is never counted out after a run in which a cancelled await of a release came through,
and only then. -/
theorem dropped_run_eq_zero_iff {s : Wip} (hs : ∀ a, s.dropped a = 0) (events : List Event) :
    (∀ a, (Runs.run (step G) s events).dropped a = 0) ↔
      ∀ t ∈ Runs.trace (step G) s events, ¬ Drops t.before t.input := by
  induction events generalizing s with
  | nil => simpa [Runs.trace] using hs
  | cons e events ih =>
    rw [Runs.trace, List.forall_mem_cons, Runs.run_cons]
    by_cases h : Drops s e
    · obtain ⟨a, ha⟩ := dropped_step_of_drops (G := G) h
      refine iff_of_false (fun hall => ?_) fun hnot => hnot.1 h
      have hle := dropped_run_le G (s := (step G s e).2) events a
      have hzero := hall a
      omega
    · rw [ih fun a => (dropped_step_of_not h a).trans (hs a)]
      exact (and_iff_right h).symm

/-- The calls of an agent in flight, where every call ended. -/
theorem inFlight_eq_zero {s : Wip} (h : ∀ c ∈ s.calls, c.phase.isEnded = true) (a : String) :
    s.inFlight a = 0 := by
  refine List.countP_eq_zero.mpr fun c hc hflight => ?_
  have hended := h c hc
  have hflight := (of_decide_eq_true hflight).2
  revert hended hflight
  cases c.phase <;> simp [Phase.isEnded, Phase.inFlight]

/-- An agent's count is within its limit, and it is the number of its calls in flight, and zero
where every call ended, exactly if no cancelled await of a release came through. -/
theorem wip_accounting (events : List Event) :
    (∀ spec ∈ G.specs, 0 ≤ (Runs.run (step G) {} events).active spec.agentId ∧
      (Runs.run (step G) {} events).active spec.agentId ≤ spec.maxWip) ∧
    ((∀ a, (Runs.run (step G) {} events).active a = (Runs.run (step G) {} events).inFlight a ∧
        ((∀ c ∈ (Runs.run (step G) {} events).calls, c.phase.isEnded = true) →
          (Runs.run (step G) {} events).active a = 0)) ↔
      ∀ t ∈ Runs.trace (step G) {} events, ¬ Drops t.before t.input) := by
  have hcounted : Counted (Runs.run (step G) {} events) :=
    Runs.run_invariant (fun _ _ => counted_step) events fun _ => rfl
  have hbounded : Bounded G (Runs.run (step G) {} events) :=
    Runs.run_invariant (fun _ _ => bounded_step) events
      ⟨fun _ hc => absurd hc List.not_mem_nil, fun spec _ => Int.natCast_nonneg spec.maxWip⟩
  refine ⟨fun spec hspec => ⟨?_, hbounded.active spec hspec⟩, ?_⟩
  · rw [hcounted spec.agentId]
    omega
  · rw [← dropped_run_eq_zero_iff G (fun _ => rfl) events]
    constructor
    · intro h a
      have hactive := (h a).1
      rw [hcounted a] at hactive
      omega
    · intro h a
      have hactive : (Runs.run (step G) {} events).active a =
          (Runs.run (step G) {} events).inFlight a := by
        rw [hcounted a, h a]
        omega
      refine ⟨hactive, fun hended => ?_⟩
      rw [hactive, inFlight_eq_zero hended]
      rfl

end Runs

/-! ## A call cancelled at its release -/

def sampleSpec : GgenAgentSpec where
  agentId := "architect"
  roleRef := "urn:test:role:architect"
  plannerRef := "urn:test:planner:deterministic"
  objectiveRef := "urn:test:objective:flow"
  observationProjectionRef := "urn:test:projection:observation"
  actionProjectionRef := "urn:test:projection:action"
  packRef := "urn:test:pack:ggen"

def sampleAgents : Agents where
  specs := [sampleSpec]
  distinct := List.nodup_singleton _
  manufacturerRef := "urn:gymact:manufacturer:callable-ggen"
  canon := .reference
  repr s := "'" ++ s ++ "'"

/-- A call is cancelled during its manufacture, and nothing is in flight any more. -/
theorem slot_leaked :
    let s := Runs.run (step sampleAgents) {} [.invoke "architect" [] [], .acquire 0, .proceed 0,
      .cancel 0, .manufactured 0 .cancelled, .acquire 0]
    (∀ c ∈ s.calls, c.phase.isEnded = true) ∧ s.inFlight "architect" = 0 ∧
      s.active "architect" = 1 := by
  decide +kernel

end GgenAgent

end GymAct
