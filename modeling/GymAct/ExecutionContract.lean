import GymAct.Fallible
import GymAct.Models

/-!
# The contract of the execution loop

The models of `execution_loop.py`, and its collaborators. A collaborator is a function of a
world it may change, and so is every attribute of a provider; each may raise. `calls` records
what was asked and heard. Costs and concurrency of providers, and `loop_log`, are left out.
-/

namespace GymAct.ExecutionLoop

open Fallible

/-! ## Contract models -/

/-- `LegalOutcome`. -/
inductive LegalOutcome
  | recover | replan | substitute | refuse | typedBlock
  deriving DecidableEq, Repr

def LegalOutcome.value : LegalOutcome → String
  | recover => "Recover"
  | replan => "Replan"
  | substitute => "Substitute"
  | refuse => "Refuse"
  | typedBlock => "TypedBlock"

/-- `EpisodeStanding`. -/
inductive EpisodeStanding
  | autonomous | assisted | blockedAuthority | blockedInformation | failed
  deriving DecidableEq, Repr

/-- `BrokenTerm`. -/
inductive BrokenTerm
  | rMissingAuthority | rMissingIdentity | rMissingConsequence | admissionVacuous | muOnO
  | resourceExhausted | providerUnavailable | dependencyOutage | verificationFailed
  | subjectUnstable | subjectStale | impossibleObjective | transportPartition
  deriving DecidableEq, Repr

def BrokenTerm.value : BrokenTerm → String
  | rMissingAuthority => "R_missing_authority"
  | rMissingIdentity => "R_missing_identity"
  | rMissingConsequence => "R_missing_consequence"
  | admissionVacuous => "admission_vacuous"
  | muOnO => "mu_on_O"
  | resourceExhausted => "resource_exhausted"
  | providerUnavailable => "provider_unavailable"
  | dependencyOutage => "dependency_outage"
  | verificationFailed => "verification_failed"
  | subjectUnstable => "subject_unstable"
  | subjectStale => "subject_stale"
  | impossibleObjective => "impossible_objective"
  | transportPartition => "transport_partition"

/-- A `TransportFault`; a `WorkerCrashed` is one with an injection point. -/
structure TransportFault where
  kind : String
  retryAfterTicks : ℤ := 1
  appliedBefore : Bool := false
  injectionPoint : Option String := none
  deriving DecidableEq, Repr

/-- What a collaborator raises. -/
inductive Raised
  | fault (f : TransportFault)
  | error (e : PyError)
  deriving DecidableEq, Repr

/-- The pattern of a subject SHA : 7 to 64 lower case hexadecimal digits. -/
def IsSubjectSha (sha : String) : Prop :=
  7 ≤ sha.length ∧ sha.length ≤ 64 ∧ ∀ c ∈ sha.toList, c.isDigit ∨ c ∈ ['a', 'b', 'c', 'd', 'e', 'f']

instance (sha : String) : Decidable (IsSubjectSha sha) :=
  @instDecidableAnd _ _ inferInstance (@instDecidableAnd _ _ inferInstance (List.decidableBAll _ _))

structure SubjectRef where
  repo : String
  sha : String
  isSubjectSha : IsSubjectSha sha
  deriving DecidableEq

structure ClaimPin where
  providerExecutionId : String
  pinnedSubjectSha : String
  deriving DecidableEq, Repr

structure AuthorityGrant where
  ceiling : String
  grant : String
  actor : String
  expiresAtTick : Option ℤ := none
  deriving DecidableEq, Repr

structure ResourceConstraints where
  deadlineTicks : ℕ := 200
  maxRetries : ℕ := 3
  maxProviderSwitches : ℕ := 2
  maxSubjectMoves : ℕ := 2
  diskBudgetMb : ℕ := 512
  cpuBudgetCores : PyFloat := .finite 2
  deriving DecidableEq, Repr

/-- An `ExecutionRequest`; `idempotencyKey` is the work order when none is given. -/
structure ExecutionRequest where
  workOrder : String
  capabilityRequirements : List String
  subject : SubjectRef
  authority : AuthorityGrant
  evidenceRequirements : List String
  resourceConstraints : ResourceConstraints := {}
  idempotencyKey : String
  deriving DecidableEq

/-- An entry of the actuation ledger. -/
structure Actuation where
  sequence : ℕ
  provider : String
  providerExecutionId : String
  pinnedSubjectSha : String
  declaredSubjectAfterSha : String
  effectDigest : String
  consequence : Payload
  witness : String
  deriving DecidableEq, Repr

/-- An entry of a receipt's ledger is admitted or superseded. -/
inductive Disposition
  | admitted | superseded
  deriving DecidableEq, Repr

def Disposition.value : Disposition → String
  | admitted => "admitted"
  | superseded => "superseded"

/-- The provider a receipt names. -/
structure ReceiptProvider where
  transport : String
  capabilities : List String
  authorityCeiling : String
  receiptProtocol : String
  deriving DecidableEq, Repr

/-- The evidence of a receipt, of kind `verifier`. -/
structure ReceiptEvidence where
  effectDigest : Value
  evidenceRequirements : List String
  deriving DecidableEq

structure ReplayBinding where
  providerExecutionId : String
  pinnedSubjectSha : String
  durableLocation : String
  idempotencyKey : String
  deriving DecidableEq, Repr

/-- The `aloup` extensions of a receipt. -/
structure ReceiptExt where
  outcome : LegalOutcome
  executionClass : String := "simulated-in-process"
  ocelDigest : String
  actuationCount : ℕ
  actuations : List (Actuation × Disposition)
  deriving DecidableEq

structure ExecutionReceipt where
  workOrderId : String
  originAuthority : AuthorityGrant
  provider : ReceiptProvider
  providerExecutionId : String
  subjectBefore : SubjectRef
  subjectAfter : SubjectRef
  commands : List String
  consequences : List Payload
  evidence : List ReceiptEvidence
  exitStatus : String
  emittedAtTick : String
  emittedAt : String
  replayBinding : ReplayBinding
  ext : ReceiptExt
  deriving DecidableEq

structure OcelEvent where
  eventType : String
  tick : ℤ
  attributes : Payload
  objects : List (String × String)
  deriving DecidableEq

structure LoopResult where
  outcome : LegalOutcome
  standing : Standing
  episodeStanding : EpisodeStanding
  receipt : Option ExecutionReceipt := none
  typedReason : Option String := none
  brokenTerm : Option BrokenTerm := none
  actuationCount : ℕ
  actuations : List Actuation
  events : List OcelEvent
  deriving DecidableEq

/-! ## Collaborators -/

/-- What a call of a collaborator answers or raises, and the world after it. -/
abbrev Reply (W α : Type) := W → Except Raised α × W

structure ExecutionProvider (W : Type) where
  capabilities : Reply W (List String)
  transport : Reply W String
  availability : Reply W Bool
  authorityCeiling : Reply W String
  receiptProtocol : Reply W String
  currentSubjectSha : String → Reply W String
  resolveSubject : String → Reply W SubjectRef
  claim : ExecutionRequest → Reply W ClaimPin
  execute : ExecutionRequest → String → Reply W Payload
  fetchReceipt : String → Reply W (Option Payload)
  ack : ExecutionReceipt → Reply W Unit

/-- An `AutonomousLoop` and its collaborators. -/
structure AutonomousLoop (W : Type) where
  providers : List (ExecutionProvider W)
  verify : SubjectRef → String → ExecutionRequest → Reply W (Bool × String)
  isValid : AuthorityGrant → Reply W Bool
  diskMbAvailable : Reply W ℤ
  cpuCoresAvailable : Reply W PyFloat
  now : Reply W ℤ
  advance : ℤ → Reply W Unit
  nonempty : 0 < providers.length

/-- `str`, `dict` and `str.upper` of the language. -/
structure PyText where
  str : Value → String
  dict : Value → Except PyError Payload
  upper : String → String
  str_str : ∀ s, str (.str s) = s
  dict_dict : ∀ items, dict (.dict items) = .ok items

/-- What was asked of a collaborator, and heard. -/
inductive Call
  | isValid (valid : Bool)
  | now (tick : ℤ)
  | availability (provider : ℕ) (available : Bool)
  | capabilities (provider : ℕ) (names : List String)
  | authorityCeiling (provider : ℕ) (ceiling : String)
  | claim (provider : ℕ) (answer : Except Raised ClaimPin)
  | execute (provider : ℕ) (answer : Except Raised Payload)
  | fetchReceipt (provider : ℕ) (fragment : Option Payload)
  | currentSubjectSha (provider : ℕ) (sha : String)
  | verify (sha effectDigest : String) (verified : Bool)

/-- The loop between two calls : `_completed`, `events`, `_actuations`, `_unreconciled`. -/
structure LoopState (W : Type) where
  world : W
  completed : String → Option (String × ExecutionReceipt) := fun _ => none
  events : List OcelEvent := []
  actuations : List Actuation := []
  unreconciled : String → Option (String × String × String × List Actuation) := fun _ => none
  calls : List Call := []

abbrev LoopM (W α : Type) := Prog Raised (LoopState W) α

section Plumbing

variable {W α : Type}

/-- A call of a collaborator, and what is recorded of it. -/
def ask (reply : Reply W α) (heard : Except Raised α → List Call) : LoopM W α := do
  let s ← get
  set { s with world := (reply s.world).2, calls := s.calls ++ heard (reply s.world).1 }
  match (reply s.world).1 with
  | .ok a => pure a
  | .error e => throw e

/-- A call that is recorded only when it answers. -/
def askOk (reply : Reply W α) (heard : α → Call) : LoopM W α :=
  ask reply fun answer =>
    match answer with
    | .ok a => [heard a]
    | .error _ => []

/-- A call that is not recorded. -/
def askQuietly (reply : Reply W α) : LoopM W α := ask reply fun _ => []

/-- An error of the language is raised on. -/
def raising : Except PyError α → LoopM W α
  | .ok a => pure a
  | .error e => throw (.error e)

/-- `SubjectRef(repo=repo, sha=sha)` for the repo of a subject. -/
def subjectRef (repo sha : String) : LoopM W SubjectRef :=
  if h : IsSubjectSha sha then pure ⟨repo, sha, h⟩
  else throw (.error ⟨"ValidationError", "String should match pattern '^[0-9a-f]\x7b7,64\x7d$'"⟩)

end Plumbing

/-! ## Values and texts -/

/-- `bool(value)`. -/
def truthy : Value → Bool
  | .null => false
  | .bool b => b
  | .int n => n != 0
  | .float x => x != .finite 0
  | .str s => s != ""
  | .list items => !items.isEmpty
  | .dict items => !items.isEmpty

/-- `<` of floats. -/
def floatLt : PyFloat → PyFloat → Bool
  | .finite p, .finite q => p < q
  | .negInf, .finite _ | .negInf, .inf | .finite _, .inf => true
  | _, _ => false

/-- `sha[:12]`. -/
def short (sha : String) : String := String.ofList (sha.toList.take 12)

/-- `_CEILING_ORDER.get(ceiling.upper())`. -/
def ceilingOrder (T : PyText) (ceiling : String) : Option ℕ :=
  [("NONE", 0), ("SELECT", 1), ("CONSTRUCT", 2), ("DO", 3)].lookup (T.upper ceiling)

/-- `_ceiling_at_least`. -/
def ceilingAtLeast (T : PyText) (observed required : String) : Bool :=
  decide ((ceilingOrder T required).getD 99 ≤ (ceilingOrder T observed).getD 0)

def SubjectRef.dump (r : SubjectRef) : Value := .dict [("repo", .str r.repo), ("sha", .str r.sha)]

def AuthorityGrant.dump (g : AuthorityGrant) : Value :=
  .dict [("ceiling", .str g.ceiling), ("grant", .str g.grant), ("actor", .str g.actor),
    ("expires_at_tick", (g.expiresAtTick.map .int).getD .null)]

def ResourceConstraints.dump (r : ResourceConstraints) : Value :=
  .dict [("deadline_ticks", .int r.deadlineTicks), ("max_retries", .int r.maxRetries),
    ("max_provider_switches", .int r.maxProviderSwitches),
    ("max_subject_moves", .int r.maxSubjectMoves), ("disk_budget_mb", .int r.diskBudgetMb),
    ("cpu_budget_cores", .float r.cpuBudgetCores)]

def ExecutionRequest.dump (r : ExecutionRequest) : Value :=
  .dict [("work_order", .str r.workOrder),
    ("capability_requirements", .ofStrings r.capabilityRequirements), ("subject", r.subject.dump),
    ("authority", r.authority.dump), ("evidence_requirements", .ofStrings r.evidenceRequirements),
    ("resource_constraints", r.resourceConstraints.dump),
    ("idempotency_key", .str r.idempotencyKey)]

def OcelEvent.dump (e : OcelEvent) : Value :=
  .dict [("event_type", .str e.eventType), ("tick", .int e.tick), ("attributes", .dict e.attributes),
    ("objects", .dict (e.objects.map fun o => (o.1, .str o.2)))]

/-- `_request_digest`. -/
def requestDigest (C : Canon) (r : ExecutionRequest) : Except PyError String := C.digest r.dump

end GymAct.ExecutionLoop
