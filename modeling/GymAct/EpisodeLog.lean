import GymAct.KernelRuns
import GymAct.Reparse
import Mathlib.Data.List.Chain
import Mathlib.Data.String.Basic

/-!
# The exported log of an episode

`receiptsToOcel` exports the receipts of an episode, and `deriveStanding` derives its standing
from the exported log : the operations have to follow `lifecycle`, and the verifications have to
have passed.

The kernel receipts neither observations nor checkpoints, and receipts teardowns that were refused
or failed. `standing_agrees_iff` : the derived standing is what the verifications say unless they
all passed and a restore is receipted right after the materialization or after a restore, or
anything after a teardown.
-/

namespace GymAct

namespace EpisodeLog

open Coop Coop.Prog

/-! ## The export -/

structure OcelAttribute where
  name : String
  value : String
  deriving DecidableEq, Repr

structure OcelRelationship where
  objectId : String
  qualifier : String
  deriving DecidableEq, Repr

structure OcelEvent where
  id : String
  type : String
  time : String
  attributes : List OcelAttribute
  relationships : List OcelRelationship
  deriving DecidableEq, Repr

structure OcelObject where
  id : String
  type : String
  deriving DecidableEq, Repr

/-- An exported log. Object types have no attributes, and event types one, the standing. -/
structure OcelLog where
  eventTypes : List String
  objectTypes : List String
  events : List OcelEvent
  objects : List OcelObject
  deriving DecidableEq, Repr

/-- What needs the text of a `float`, and the `repr` of a string. -/
structure LogTexts where
  floatStr : PyFloat → String
  repr : String → String

/-- `str` of a `bool`. -/
def boolStr (b : Bool) : String := if b then "True" else "False"

section Export

variable (texts : LogTexts)

/-- The optional attributes of a receipt's event. -/
def namedAttributes (r : Receipt) : List (String × Option String) :=
  [("reason", r.reason), ("authority_ref", r.authorityRef),
    ("authority_evidence_ref", r.authorityEvidenceRef), ("idempotency_key", r.idempotencyKey),
    ("pre_state_digest", r.preStateDigest), ("post_state_digest", r.postStateDigest),
    ("verification_id", r.verificationId), ("error_digest", r.errorDigest),
    ("verified", r.verified.map boolStr), ("world_changed", r.worldChanged.map boolStr)]

/-- The attribute of a name, if it has a value. -/
def attribute? (item : String × Option String) : Option OcelAttribute := item.2.map (⟨item.1, ·⟩)

def costAttributes (cost : CostDimension) : List OcelAttribute :=
  [⟨"cost:" ++ cost.unit, texts.floatStr cost.quantity⟩, ⟨"cost_kind:" ++ cost.unit, cost.kind.value⟩,
    ⟨"cost_source:" ++ cost.unit, cost.source⟩]

/-- A reference, unless it is empty. -/
def nonEmptyRef (ref : Option String) : Option String := ref.filter (· ≠ "")

/-- The event of a receipt. -/
def eventOf (r : Receipt) : OcelEvent where
  id := r.receiptId
  type := r.operation.value
  time := r.occurredAt
  attributes := ⟨"standing", r.standing.value⟩ ::
    ((namedAttributes r).filterMap attribute? ++ r.costs.flatMap (costAttributes texts))
  relationships := ⟨r.episodeId, "episode"⟩ ::
    ((nonEmptyRef r.subjectRef).toList.map (⟨·, "environment"⟩) ++
      (nonEmptyRef r.capabilityRef).toList.map (⟨·, "capability"⟩))

/-- `sorted` of a set of texts. -/
def sortedTexts (l : List String) : List String := l.dedup.insertionSort (· ≤ ·)

/-- `receipts_to_ocel`. -/
def receiptsToOcel (receipts : List Receipt) : Except PyError OcelLog :=
  if receipts = [] then
    throw ⟨"ValueError", "cannot build an OCEL log from an empty receipt list"⟩
  else
    let environments := sortedTexts (receipts.filterMap (nonEmptyRef ·.subjectRef))
    let capabilities := sortedTexts (receipts.filterMap (nonEmptyRef ·.capabilityRef))
    return {
      eventTypes := sortedTexts (receipts.map (·.operation.value))
      objectTypes := "episode" ::
        ((if environments = [] then [] else ["environment"]) ++
          if capabilities = [] then [] else ["capability"])
      events := receipts.map (eventOf texts)
      objects := (sortedTexts (receipts.map (·.episodeId))).map (⟨·, "episode"⟩) ++
        environments.map (⟨·, "environment"⟩) ++ capabilities.map (⟨·, "capability"⟩) }

end Export

/-! ## Conformance -/

/-- `LIFECYCLE`. -/
def lifecycle : Operation → List Operation
  | .discover => [.materialize]
  | .materialize => [.observe, .act, .verify, .checkpoint, .teardown]
  | .observe => [.observe, .act, .verify, .checkpoint, .restore, .teardown]
  | .act => [.observe, .act, .verify, .checkpoint, .restore, .teardown]
  | .verify => [.observe, .act, .verify, .checkpoint, .restore, .teardown]
  | .checkpoint => [.observe, .act, .verify, .restore, .teardown]
  | .restore => [.observe, .act, .verify, .checkpoint, .teardown]
  | .teardown => []

/-- `START_OPERATION`. -/
def startOperation : Operation := .materialize

structure Deviation where
  index : ℕ
  fromOperation : Option Operation
  toOperation : Operation
  reason : String
  deriving DecidableEq, Repr

structure ConformanceResult where
  conformant : Bool
  deviations : List Deviation
  deriving DecidableEq, Repr

/-- `sorted(legal_next)` as a text. -/
def legalText (legal : List Operation) : String :=
  let items := (legal.map (·.value)).insertionSort (· ≤ ·)
  "[" ++ ", ".intercalate (items.map fun s => "<Operation." ++ s.map Char.toUpper ++ ": '" ++ s ++
    "'>") ++ "]"

/-- An operation that may not come first. -/
def startDeviation (first : Operation) : List Deviation :=
  if first = startOperation then []
  else [⟨0, none, first, "episode must start with '" ++ startOperation.value ++ "', got '" ++
    first.value ++ "'"⟩]

/-- The deviations of the operations from an index on. -/
def deviationsFrom (previous : Operation) : ℕ → List Operation → List Deviation
  | _, [] => []
  | i, current :: rest =>
    (if current ∈ lifecycle previous then []
      else [⟨i, some previous, current, "'" ++ current.value ++ "' is not a legal successor of '" ++
        previous.value ++ "' (legal: " ++ legalText (lifecycle previous) ++ ")"⟩]) ++
      deviationsFrom current (i + 1) rest

/-- `ConformanceChecker.check`. -/
def check : List Operation → ConformanceResult
  | [] => ⟨true, []⟩
  | first :: rest =>
    let deviations := startDeviation first ++ deviationsFrom first 1 rest
    ⟨deviations.isEmpty, deviations⟩

/-! ## The derivation -/

/-- What `derive_standing_from_verify_events` returns. -/
inductive DerivedStanding
  | nonconformant | noVerifyEvents | verifyFailed | verifiedAlive
  deriving DecidableEq, Repr

def DerivedStanding.value : DerivedStanding → String
  | nonconformant => "NONCONFORMANT"
  | noVerifyEvents => "NO_VERIFY_EVENTS"
  | verifyFailed => "VERIFY_FAILED"
  | verifiedAlive => "VERIFIED_ALIVE"

section Derivation

variable (texts : LogTexts)

/-- `Operation(value)`. -/
def operationOf (value : String) : Except PyError Operation :=
  match Operation.ofValue value with
  | some o => return o
  | none => throw ⟨"ValueError", texts.repr value ++ " is not a valid Operation"⟩

/-- `_verified_attribute`. -/
def verifiedAttribute (e : OcelEvent) : Option String :=
  (e.attributes.find? (·.name = "verified")).map (·.value)

def eventsByTime (log : OcelLog) : List OcelEvent := log.events.insertionSort (·.time ≤ ·.time)

/-- `derive_standing_from_verify_events`. -/
def deriveStanding (log : OcelLog) : Except PyError DerivedStanding := do
  let operations ← (eventsByTime log).mapM fun e => operationOf texts e.type
  let verifyEvents := (eventsByTime log).filter (·.type = "verify")
  if (check operations).conformant = false then return .nonconformant
  else if verifyEvents = [] then return .noVerifyEvents
  else if verifyEvents.any (verifiedAttribute · ≠ some "True") then return .verifyFailed
  else return .verifiedAlive

/-- The standing derived from the log of some receipts. -/
def standingOf (receipts : List Receipt) : Except PyError DerivedStanding := do
  let log ← receiptsToOcel texts receipts
  deriveStanding texts log

end Derivation

/-! ## What is derived -/

/-- Something was verified, and every verification passed. -/
def Passed (recorded : List Receipt) : Prop :=
  (∃ r ∈ recorded, r.operation = .verify) ∧
    ∀ r ∈ recorded, r.operation = .verify → r.verified = some true

section Lemmas

variable {texts : LogTexts}

/-- An attribute of another name is not found. -/
theorem find?_attribute_of_ne {name key : String} {value : Option String}
    {items : List (String × Option String)} {more : List OcelAttribute} (h : name ≠ key) :
    (((name, value) :: items).filterMap attribute? ++ more).find? (·.name = key) =
      (items.filterMap attribute? ++ more).find? (·.name = key) := by
  cases value with
  | none => rfl
  | some v => simp [attribute?, h]

/-- The attributes of costs have other names. -/
theorem find?_costAttributes (costs : List CostDimension) :
    (costs.flatMap (costAttributes texts)).find? (·.name = "verified") = none := by
  rw [List.find?_eq_none]
  intro a ha
  obtain ⟨cost, -, ha⟩ := List.mem_flatMap.mp ha
  have hhead (s : String) (h : s.toList.head? = some 'c') : ¬ decide (s = "verified") = true := by
    rw [decide_eq_true_iff]
    rintro rfl
    revert h
    decide
  simp only [costAttributes, List.mem_cons, List.not_mem_nil, or_false] at ha
  rcases ha with rfl | rfl | rfl
  all_goals
    refine hhead _ ?_
    rw [String.toList_append, List.head?_append]
    rfl

theorem verifiedAttribute_eventOf (r : Receipt) :
    verifiedAttribute (eventOf texts r) = r.verified.map boolStr := by
  have hskip : ((namedAttributes r).filterMap attribute? ++
      r.costs.flatMap (costAttributes texts)).find? (·.name = "verified") =
      ([("verified", r.verified.map boolStr), ("world_changed", r.worldChanged.map boolStr)].filterMap
        attribute? ++ r.costs.flatMap (costAttributes texts)).find? (·.name = "verified") := by
    unfold namedAttributes
    iterate 8 rw [find?_attribute_of_ne (by decide)]
  have hstanding : decide ("standing" = "verified") = false := by decide
  rw [verifiedAttribute, eventOf, List.find?_cons, hstanding, hskip]
  cases hverified : r.verified with
  | none =>
    change (([("world_changed", r.worldChanged.map boolStr)].filterMap attribute? ++ _).find? _).map
      _ = none
    rw [find?_attribute_of_ne (by decide)]
    exact congrArg (Option.map _) (find?_costAttributes r.costs)
  | some b => rfl

theorem operationOf_value (o : Operation) : operationOf texts o.value = .ok o := by
  rw [operationOf, Operation.ofValue_value]
  rfl

theorem value_eq_verify_iff {o : Operation} : o.value = "verify" ↔ o = .verify := by
  cases o <;> decide

theorem map_boolStr_eq_iff {b : Option Bool} : b.map boolStr = some "True" ↔ b = some true := by
  rcases b with - | - | - <;> decide

/-- Events of increasing times are in order. -/
theorem eventsByTime_eq {receipts : List Receipt} {log : OcelLog}
    (hlog : receiptsToOcel texts receipts = .ok log)
    (htimes : (receipts.map (·.occurredAt)).Pairwise (· < ·)) :
    eventsByTime log = receipts.map (eventOf texts) := by
  unfold receiptsToOcel at hlog
  split at hlog
  · cases hlog
  · obtain rfl := Except.ok.inj hlog
    refine List.Pairwise.insertionSort_eq (List.pairwise_map.mpr ?_)
    exact (List.pairwise_map.mp htimes).imp fun hlt => le_of_lt hlt

theorem mapM_operationOf (receipts : List Receipt) :
    (receipts.map (eventOf texts)).mapM (fun e => operationOf texts e.type) =
      .ok (receipts.map (·.operation)) := by
  rw [List.mapM_map]
  induction receipts with
  | nil => rfl
  | cons r receipts ih =>
    rw [List.mapM_cons, ih]
    change (operationOf texts r.operation.value >>= _) = _
    rw [operationOf_value]
    rfl

/-- The derived standing is alive if the operations conform and the verifications passed. -/
theorem standingOf_eq_iff {receipts : List Receipt} (hne : receipts ≠ [])
    (htimes : (receipts.map (·.occurredAt)).Pairwise (· < ·)) :
    standingOf texts receipts = .ok .verifiedAlive ↔
      (check (receipts.map (·.operation))).conformant = true ∧ Passed receipts := by
  obtain ⟨log, hlog⟩ : ∃ log, receiptsToOcel texts receipts = .ok log := by
    rw [receiptsToOcel, if_neg hne]
    exact ⟨_, rfl⟩
  have hverify : (receipts.map (eventOf texts)).filter (·.type = "verify") =
      (receipts.filter (·.operation = .verify)).map (eventOf texts) := by
    rw [List.filter_map]
    refine congrArg (List.map _) (List.filter_congr fun r _ => ?_)
    exact decide_eq_decide.mpr value_eq_verify_iff
  have hany : ((receipts.filter (·.operation = .verify)).map (eventOf texts)).any
      (verifiedAttribute · ≠ some "True") = true ↔
        ¬ ∀ r ∈ receipts, r.operation = .verify → r.verified = some true := by
    simp only [List.any_map, List.any_filter, List.any_eq_true, Function.comp_apply,
      verifiedAttribute_eventOf, map_boolStr_eq_iff, Bool.and_eq_true, decide_eq_true_eq, ne_eq]
    push Not
    rfl
  rw [standingOf, hlog]
  change deriveStanding texts log = _ ↔ _
  rw [deriveStanding, eventsByTime_eq hlog htimes, mapM_operationOf]
  change (if _ then _ else _) = _ ↔ _
  rw [hverify]
  split
  · next hconformant => exact iff_of_false nofun fun h => by simp [hconformant] at h
  · next hconformant =>
    refine Iff.trans ?_ (and_iff_right (Bool.eq_true_of_not_eq_false hconformant)).symm
    split
    · next hnone =>
      refine iff_of_false nofun fun ⟨⟨r, hr, hop⟩, _⟩ => ?_
      have hmem := List.filter_eq_nil_iff.mp (List.map_eq_nil_iff.mp hnone) r hr
      exact hmem (decide_eq_true hop)
    · next hsome =>
      have hex : ∃ r ∈ receipts, r.operation = .verify := by
        obtain ⟨r, hr⟩ := List.exists_mem_of_ne_nil _ (mt (congrArg (List.map (eventOf texts))) hsome)
        exact ⟨r, (List.mem_filter.mp hr).1, of_decide_eq_true (List.mem_filter.mp hr).2⟩
      split
      · next hfailed => exact iff_of_false nofun fun h => hany.mp hfailed h.2
      · next hpassed => exact iff_of_true rfl ⟨hex, not_not.mp (mt hany.mpr hpassed)⟩

/-! ### Conformance -/

theorem deviationsFrom_eq_nil_iff {previous : Operation} {i : ℕ} {operations : List Operation} :
    deviationsFrom previous i operations = [] ↔
      (previous :: operations).IsChain fun a b => b ∈ lifecycle a := by
  induction operations generalizing previous i with
  | nil => simp [deviationsFrom]
  | cons current rest ih =>
    rw [deviationsFrom, List.append_eq_nil_iff, ih, List.isChain_cons_cons]
    simp

theorem check_conformant_iff {first : Operation} {rest : List Operation} :
    (check (first :: rest)).conformant = true ↔
      first = .materialize ∧ (first :: rest).IsChain fun a b => b ∈ lifecycle a := by
  rw [check, List.isEmpty_iff, List.append_eq_nil_iff, deviationsFrom_eq_nil_iff]
  refine and_congr_left' ?_
  rw [startDeviation, startOperation]
  split
  · next heq => exact iff_of_true rfl heq
  · next hne => exact iff_of_false nofun hne

/-- Operations receipted for an episode that exists. -/
def Later (o : Operation) : Prop := o ∈ [.act, .verify, .restore, .teardown]

/-- Nothing follows a teardown, and no restore the materialization or a restore. -/
def Separated (recorded : List Receipt) : Prop :=
  recorded.IsChain fun a b => a.operation ≠ .teardown ∧
    (b.operation = .restore → a.operation ≠ .materialize ∧ a.operation ≠ .restore)

theorem mem_lifecycle_iff {a b : Operation} (ha : a = .materialize ∨ Later a) (hb : Later b) :
    b ∈ lifecycle a ↔ a ≠ .teardown ∧ (b = .restore → a ≠ .materialize ∧ a ≠ .restore) := by
  unfold Later at ha hb
  revert ha hb
  cases a <;> cases b <;> decide

/-- What the kernel records conforms if it is separated. -/
theorem isChain_lifecycle_iff {m : Receipt} {rest : List Receipt}
    (hm : m.operation = .materialize ∨ Later m.operation)
    (hrest : ∀ r ∈ rest, Later r.operation) :
    ((m :: rest).map (·.operation)).IsChain (fun a b => b ∈ lifecycle a) ↔ Separated (m :: rest) := by
  induction rest generalizing m with
  | nil => simp [Separated]
  | cons r rest ih =>
    obtain ⟨hr, hrest⟩ := List.forall_mem_cons.mp hrest
    rw [List.map_cons, List.map_cons, List.isChain_cons_cons, ← List.map_cons, ih (Or.inr hr) hrest,
      mem_lifecycle_iff hm hr, Separated, Separated, List.isChain_cons_cons]

end Lemmas

/-! ## What the kernel records -/

section Kernel

variable {rt : Runtime MemoryReceiptLedger} {A : (c : Call) → c.Reply → Prop}

/-- The receipts of an episode : one of its materialization, then others. -/
def Opened (episodeId : String) (m : Receipt) (w : MemoryWorld) (_ : KernelLog) : Prop :=
  ∃ rest, w.receipts episodeId = m :: rest ∧ ∀ r ∈ rest, Later r.operation

theorem Opened.record {episodeId : String} {m : Receipt} {w : MemoryWorld} {log : KernelLog}
    (h : Opened episodeId m w log) {L : MemoryReceiptLedger} {r : Receipt} (hr : Later r.operation) :
    Opened episodeId m (w.recorded L r) log := by
  obtain ⟨rest, hrest, hlater⟩ := h
  by_cases he : r.episodeId = episodeId
  · subst he
    refine ⟨rest ++ [r], ?_, fun r' hr' => ?_⟩
    · simp [World.recorded, hrest]
    · rcases List.mem_append.mp hr' with hr' | hr'
      · exact hlater r' hr'
      · exact List.mem_singleton.mp hr' ▸ hr
  · exact ⟨rest, (Function.update_of_ne (Ne.symm he) _ _).trans hrest, hlater⟩

variable (rt A) in
/-- Programs that record later operations only. -/
theorem openedLaw (episodeId : String) (m : Receipt) :
    KernelLaw rt A (fun _ => True) (fun r => Later r.operation)
      fun _ p => Keeps A (Opened episodeId m) p where
  ret r := Keeps.lift (A := A) r
  bindE hp hf := hp.bindE hf
  getState := Keeps.getState (A := A)
  leads hp ht := hp.keeps (fun _ _ _ _ _ h => h) ht
  idle := Keeps.modify fun _ _ h => h
  drawn := Keeps.modify fun _ _ h => h
  verified _ := Keeps.modify fun _ _ h => h
  recorded hp hf := by
    intro w log h
    rw [post_bind, post_stamp, post_onOk, post_bind, post_record]
    exact ⟨fun e _ => h, fun L _ => hf _ _ _ (Opened.record (w := w.drawn) (L := L) h hp)⟩

variable (rt A) in
theorem openedLockedLaw (episodeId : String) (m : Receipt) (l : LockId) :
    LockedLaw rt A (fun _ => True) (fun _ => True) (fun r => Later r.operation)
      (fun _ p => Keeps A (Opened episodeId m) p) l fun _ p => Keeps A (Opened episodeId m) p :=
  ⟨openedLaw rt A episodeId m, openedLaw rt A episodeId m, fun h => h.withLock l⟩

/-- A call on an episode that exists. -/
def OnEpisode (episodeId : String) : Op → Prop
  | .observe id | .verify id _ | .checkpoint id | .restore id _ _ | .teardown id _ => id = episodeId
  | .act intent => intent.episodeId = episodeId
  | _ => False

theorem keeps_opened (hC : rt.canon.Total) {episodeId : String} {m : Receipt} {op : Op}
    (hop : OnEpisode episodeId op) : Keeps A (Opened episodeId m) (op.program rt) := by
  have hlaw := openedLaw rt A episodeId m
  have hlocked (l : LockId) := openedLockedLaw rt A episodeId m l
  have hplain {o : Operation} (ho : Later o) (r : Receipt) (hr : KernelReceipt o r) :
      Later r.operation := hr.operation ▸ ho
  cases op with
  | observe id => exact hlaw.map ((hlocked _).observe fun _ _ => trivial) _
  | act intent =>
    exact hlaw.map ((hlocked _).act hC (fun _ _ => trivial) (fun _ _ _ => trivial)
      (fun _ => Keeps.modify fun _ _ h => h) (hplain (by simp [Later]))) _
  | verify id expected =>
    exact hlaw.map ((hlocked _).verify (fun _ _ => trivial) (fun _ _ => trivial)
      (hplain (by simp [Later])) expected) _
  | checkpoint id => exact hlaw.map ((hlocked _).checkpoint fun _ => trivial) _
  | restore id saved authorityRef =>
    exact hlaw.map ((hlocked _).restore (fun _ _ => trivial) (fun _ _ => trivial)
      (hplain (by simp [Later])) saved authorityRef) _
  | teardown id authorityRef =>
    refine hlaw.map ((hlocked _).teardown (fun _ _ => trivial)
      (fun r hr _ => hplain (by simp [Later]) r hr) fun st before authority => ?_) _
    exact hlaw.teardownAdmitted (fun _ => trivial) (fun r hr _ => hplain (by simp [Later]) r hr)
      (fun _ => Keeps.modify fun _ _ h => h) (Keeps.modify fun _ _ h => h) authorityRef st before
      authority
  | _ => exact hop.elim

/-- Calls on an episode record later operations after its materialization. -/
theorem opened_runOps (hC : rt.canon.Total) {ω : KernelOracle} {episodeId : String} {m : Receipt}
    (ops : List Op) {x : MemoryWorld × KernelLog} (hx : Opened episodeId m x.1 x.2)
    (hops : ∀ op ∈ ops, OnEpisode episodeId op) :
    Opened episodeId m (runOps rt ω ops x).1 (runOps rt ω ops x).2 := by
  induction ops generalizing x with
  | nil => exact hx
  | cons op ops ih =>
    obtain ⟨hop, hops⟩ := List.forall_mem_cons.mp hops
    have hstep : Opened episodeId m (exec ω (op.program rt) x.1 x.2).2.1
        (exec ω (op.program rt) x.1 x.2).2.2 :=
      exec_of_post (Q := fun _ w log => Opened episodeId m w log) (A := fun _ _ => True)
        (fun _ _ => trivial) (op.program rt) (keeps_opened hC hop x.1 x.2 hx)
    exact ih hstep hops

end Kernel

/-- After any calls on a materialized episode, the standing derived from its log is alive exactly
when its verifications passed, unless they passed and its receipts are not separated. -/
theorem standing_agrees_iff (rt : Runtime MemoryReceiptLedger) (hC : rt.canon.Total)
    (texts : LogTexts) (ω : KernelOracle) (x : MemoryWorld × KernelLog) (episodeId : String)
    (m : Receipt) (hm : x.1.receipts episodeId = [m]) (hop : m.operation = .materialize)
    (ops : List Op) (hops : ∀ op ∈ ops, OnEpisode episodeId op)
    (htimes : (((runOps rt ω ops x).1.receipts episodeId).map (·.occurredAt)).Pairwise (· < ·)) :
    (standingOf texts ((runOps rt ω ops x).1.receipts episodeId) = .ok .verifiedAlive ↔
        Passed ((runOps rt ω ops x).1.receipts episodeId)) ↔
      (Passed ((runOps rt ω ops x).1.receipts episodeId) →
        Separated ((runOps rt ω ops x).1.receipts episodeId)) := by
  obtain ⟨rest, hrest, hlater⟩ := opened_runOps hC (ω := ω) ops ⟨[], hm, List.forall_mem_nil _⟩ hops
  rw [hrest] at htimes ⊢
  have hconforms : (check ((m :: rest).map (·.operation))).conformant = true ↔
      Separated (m :: rest) := by
    rw [← isChain_lifecycle_iff (Or.inl hop) hlater, List.map_cons, check_conformant_iff]
    exact and_iff_right hop
  rw [standingOf_eq_iff (List.cons_ne_nil m rest) htimes, hconforms]
  tauto

/-! ## An episode verified -/

instance (recorded : List Receipt) : Decidable (Passed recorded) :=
  inferInstanceAs (Decidable (_ ∧ _))

/-- A runtime with a clock. -/
def sampleClocked : Runtime MemoryReceiptLedger :=
  { sampleRuntime with
    now := fun n => "2026-08-07T00:00:0" ++ toString n ++ "+00:00" }

def sampleTexts : LogTexts := ⟨fun _ => "1.0", fun s => "'" ++ s ++ "'"⟩

/-- An outside where environments do not tear down. -/
def sampleStuck (log : KernelLog) : (c : Call) → c.Reply
  | .teardown .. => .error (.raised ⟨"RuntimeError", "busy"⟩)
  | c => sampleOutside log c

/-- The episode `a`, materialized. -/
def sampleOpened (ω : KernelOracle) : MemoryWorld × KernelLog :=
  runOps sampleClocked ω [.registerProvider ⟨"memory", false⟩, .materialize { idempotencyKey := "m1" }]
    (newWorld, [])

/-- What is recorded of it. -/
def sampleRecorded (ω : KernelOracle) (ops : List Op) : List Receipt :=
  (runOps sampleClocked ω ops (sampleOpened ω)).1.receipts "a"

theorem standing_agrees_iff_sample :
    standingOf sampleTexts (sampleRecorded sampleOutside
        [.act (sampleAct "a" "k"), .verify "a" [], .teardown "a" none]) = .ok .verifiedAlive ↔
      Passed (sampleRecorded sampleOutside
        [.act (sampleAct "a" "k"), .verify "a" [], .teardown "a" none]) := by
  have hopened : ((sampleOpened sampleOutside).1.receipts "a").map (·.operation) = [.materialize] := by
    decide +kernel
  obtain ⟨m, hm, hop⟩ := List.map_eq_singleton_iff.mp hopened
  have hoperations : ((sampleRecorded sampleOutside [.act (sampleAct "a" "k"), .verify "a" [],
      .teardown "a" none]).map (·.operation)).IsChain fun a b => a ≠ .teardown ∧
        (b = .restore → a ≠ .materialize ∧ a ≠ .restore) := by
    decide +kernel
  refine (standing_agrees_iff sampleClocked Canon.reference_total sampleTexts sampleOutside
    (sampleOpened sampleOutside) "a" m hm hop
    [.act (sampleAct "a" "k"), .verify "a" [], .teardown "a" none] ?_ ?_).mpr fun _ => ?_
  · simp [OnEpisode, sampleAct]
  · decide +kernel
  · exact (List.isChain_map _).mp hoperations

/-- Every verification passed, and the log does not conform : a restore of a checkpoint after the
materialization, and a verification after a teardown that failed. -/
theorem standing_disagrees :
    (Passed (sampleRecorded sampleOutside [.checkpoint "a", .restore "a" [] none, .verify "a" []]) ∧
      standingOf sampleTexts (sampleRecorded sampleOutside
        [.checkpoint "a", .restore "a" [] none, .verify "a" []]) = .ok .nonconformant) ∧
    Passed (sampleRecorded sampleStuck [.verify "a" [], .teardown "a" none, .verify "a" []]) ∧
      standingOf sampleTexts (sampleRecorded sampleStuck
        [.verify "a" [], .teardown "a" none, .verify "a" []]) = .ok .nonconformant := by
  decide +kernel

end EpisodeLog

end GymAct
