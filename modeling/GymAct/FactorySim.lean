import Mathlib.Data.List.Sort
import Mathlib.Data.String.Basic
import GymAct.Compileout
import GymAct.Tables

/-!
# The factory simulation

`fde_factory_sim.py` : a stream of engagements, each of a class of problems whose true disposition
drifts. The baseline explores at each engagement. The factory compiles what it explored, uses it
again under the same identity, and explores again when the policy revision or the verification says
that it is stale.

The ranks that order dispositions and the stream are a parameter (`Ranks`), and what `_orders` and
`_explore_orders` memoize is computed anew.
-/

namespace GymAct

namespace FactorySim

open Compileout

/-! ## Ranks -/

/-- A digest, by its hexadecimal digits. -/
structure HexDigest where
  digits : List (Fin 16)
  nonempty : digits ≠ []

def hexDigit (d : Fin 16) : Char := Char.ofNat (if d.val < 10 then 48 + d.val else 87 + d.val)

def HexDigest.text (d : HexDigest) : String := String.ofList (d.digits.map hexDigit)

/-- `int(digest, 16)`. -/
def HexDigest.value (d : HexDigest) : ℕ := d.digits.foldl (fun n digit => 16 * n + digit.val) 0

/-- A ranking function in place of `_rank`. -/
abbrev Ranks := ℤ → List Value → HexDigest

/-! ## Records -/

inductive Path
  | explore | exploit | refusedAuthority
  deriving DecidableEq, Repr

def Path.value : Path → String
  | explore => "EXPLORE"
  | exploit => "EXPLOIT"
  | refusedAuthority => "REFUSED_AUTHORITY"

inductive ExploreReason
  | firstSolve | identityDrift | verifyDivergence | noCompounding
  deriving DecidableEq, Repr

def ExploreReason.value : ExploreReason → String
  | firstSolve => "FIRST_SOLVE"
  | identityDrift => "IDENTITY_DRIFT"
  | verifyDivergence => "VERIFY_DIVERGENCE"
  | noCompounding => "NO_COMPOUNDING"

def SIM_AUTHORITY_REF : String := "urn:gymact:sim:authority"
def VERIFIER_REF : String := "urn:gymact:sim:world-oracle"
def ACTION_REF : String := "urn:gymact:sim:apply-disposition"
def LOOKALIKES : ℕ := 3
def COMMON_INSTANCES : ℕ := 3
def RARE_INSTANCES : ℕ := 3

@[ext]
structure DriftEvent where
  atEngagement : ℕ
  classId : String
  announced : Bool
  atEngagement_pos : 1 ≤ atEngagement
  deriving Repr

instance : DecidableEq DriftEvent := fun _ _ =>
  decidable_of_iff _ DriftEvent.ext_iff.symm

structure SimulationSpec where
  seed : ℤ := 20260930
  nClasses : ℕ := 6
  nEngagements : ℕ := 60
  nDispositions : ℕ := 48
  driftEvents : List DriftEvent := []
  authorityGranted : Bool := true
  nClasses_pos : 1 ≤ nClasses
  nEngagements_pos : 1 ≤ nEngagements
  nDispositions_le : LOOKALIKES + 2 ≤ nDispositions

structure EngagementRecord where
  index : ℕ
  classId : String
  path : Path
  exploreReason : Option ExploreReason := none
  cognitionEvals : ℕ := 0
  verifyEvals : ℕ := 0
  lookups : ℕ := 0
  verified : Bool := false
  standing : Standing
  reason : String
  deriving DecidableEq, Repr

def EngagementRecord.modelDump (r : EngagementRecord) : Value :=
  .dict [("index", .int r.index), ("class_id", .str r.classId), ("path", .str r.path.value),
    ("explore_reason", .ofOption (r.exploreReason.map ExploreReason.value)),
    ("cognition_evals", .int r.cognitionEvals), ("verify_evals", .int r.verifyEvals),
    ("lookups", .int r.lookups), ("verified", .bool r.verified),
    ("standing", .str r.standing.value), ("reason", .str r.reason)]

structure ClassCurve where
  classId : String
  cognitionEvalsPerEngagement : List ℕ
  firstAdmittedAt : Option ℕ
  verifiedReuses : ℕ
  deriving DecidableEq, Repr

structure ArmResult where
  arm : String
  records : List EngagementRecord
  curves : List ClassCurve
  cognitionEvals : ℕ
  verifyEvals : ℕ
  lookups : ℕ
  redundantExplorations : ℕ
  unverifiedConsequences : ℕ
  muSizeByEngagement : List ℕ
  traceDigest : String
  deriving DecidableEq, Repr

/-- `f"{i:02d}"`. -/
def twoDigits (i : ℕ) : String := if i < 10 then "0" ++ toString i else toString i

section Simulation

variable (C : Canon) (rank : Ranks) (spec : SimulationSpec)

/-! ## The world -/

/-- The names of the dispositions. -/
def dispositions : List String := (List.range spec.nDispositions).map ("disp-" ++ twoDigits ·)

def classes : List String := (List.range spec.nClasses).map ("class-" ++ twoDigits ·)

/-- `sorted(names, key=…)`, by the texts of ranks. -/
def sortedBy (key : String → HexDigest) (names : List String) : List String :=
  names.insertionSort fun a b => (key a).text ≤ (key b).text

/-- `World._order`. -/
def order (classId : String) (epoch : ℕ) : List String :=
  sortedBy (fun name => rank spec.seed [.str "truth", .str classId, .int epoch, .str name])
    (dispositions spec)

/-- `World.explore_order`. -/
def exploreOrder (classId : String) : List String :=
  sortedBy (fun name => rank spec.seed [.str "explore", .str classId, .str name])
    (dispositions spec)

/-- `World.truth`, of a class in an epoch. -/
def truth (classId : String) (epoch : ℕ) : String := (order rank spec classId epoch).headD ""

/-- The verdict of `World.evaluate`. -/
def verdict (classId : String) (epoch : ℕ) (candidate kind : String) : Bool :=
  candidate == truth rank spec classId epoch ||
    (kind == "common" && ((order rank spec classId epoch).tail.take LOOKALIKES).contains candidate)

/-- `World.evaluate`, with the reference of a receipt. -/
def evaluate (classId : String) (epoch : ℕ) (candidate kind : String) (n : ℕ) :
    Except PyError (Bool × String) := do
  let ok := verdict rank spec classId epoch candidate kind
  let d ← C.digest (.list [.str classId, .int epoch, .str candidate, .str kind, .int n, .bool ok])
  return (ok, "urn:gymact:sim:eval:" ++ d)

/-- The instances that a candidate is challenged with. -/
def challenges : List (String × ℕ) :=
  (List.range COMMON_INSTANCES).map (("common", ·)) ++ (List.range RARE_INSTANCES).map (("rare", ·))

/-- Challenge a candidate up to the first failure : whether it survived, the receipts and how many
evaluations that took. -/
def challenge (classId : String) (epoch : ℕ) (candidate : String) :
    List (String × ℕ) → Except PyError (Bool × List String × ℕ)
  | [] => .ok (true, [], 0)
  | (kind, n) :: more => do
    let (ok, ref) ← evaluate C rank spec classId epoch candidate kind n
    if ok then
      let (survived, receipts, evals) ← challenge classId epoch candidate more
      return (survived, ref :: receipts, evals + 1)
    else return (false, [ref], 1)

/-- The first candidate that survives, its receipts and the evaluations so far. -/
def exploreFrom (classId : String) (epoch : ℕ) :
    List String → ℕ → Except PyError (String × List String × ℕ)
  | [], _ => .error ⟨"RuntimeError", "SIM_EXPLORATION_EXHAUSTED"⟩
  | candidate :: more, evals => do
    let (survived, receipts, count) ← challenge C rank spec classId epoch candidate challenges
    if survived then return (candidate, receipts, evals + count)
    else exploreFrom classId epoch more (evals + count)

/-- `_explore`. -/
def explore (classId : String) (epoch : ℕ) : Except PyError (String × List String × ℕ) :=
  exploreFrom C rank spec classId epoch (exploreOrder rank spec classId) 0

/-! ## Identity and authority -/

/-- `_identity`. -/
def identity (classId : String) (revision : ℕ) : Except PyError RecipeIdentity := do
  let contract ← C.digest (.list [.int COMMON_INSTANCES, .int RARE_INSTANCES])
  RecipeIdentity.construct classId
    ("urn:gymact:sim:world:" ++
      String.ofList ((rank spec.seed [.str "env"]).text.toList.take 12))
    (if spec.authorityGranted then "allowlist" else "deny") ("rev-" ++ toString revision)
    VERIFIER_REF ACTION_REF contract

/-- `DenyAuthorityResolver.authorize`. -/
def denyAuthorize (request : AuthorityRequest) : AuthorityDecision :=
  match request.authorityRef with
  | none => ⟨false, "LIVE_AUTHORITY_REQUIRED", none⟩
  | some _ => ⟨false, "AUTHORITY_NOT_ADMITTED", none⟩

/-- `AllowListAuthorityResolver.authorize`. -/
def allowListAuthorize (allowed : List String) (request : AuthorityRequest) : AuthorityDecision :=
  match request.authorityRef with
  | none => ⟨false, "LIVE_AUTHORITY_REQUIRED", none⟩
  | some ref =>
    if ref ∈ allowed then
      ⟨true, "AUTHORITY_ADMITTED", some ("urn:gymact:authority-decision:" ++ ref)⟩
    else ⟨false, "AUTHORITY_NOT_ADMITTED", none⟩

/-- The resolver of a simulation. -/
def resolver : AuthorityRequest → AuthorityDecision :=
  if spec.authorityGranted then allowListAuthorize [SIM_AUTHORITY_REF] else denyAuthorize

/-- `AuthorityRequest(…)` of a class and a candidate. -/
def authorityRequest (classId candidate : String) : AuthorityRequest where
  episodeId := "urn:gymact:sim:episode"
  subjectRef := "urn:gymact:sim:class:" ++ classId
  operation := .act
  capabilityRef := ACTION_REF
  payload := [("disposition", .str candidate)]
  authorityRef := some SIM_AUTHORITY_REF

/-- `_authorize`. A request is to have a canonical form. -/
def authorize (classId candidate : String) : Except PyError Bool :=
  match C.dumps (authorityRequest classId candidate).modelDump with
  | .error _ => .error ⟨"ValidationError", "INPUT_NOT_RFC8785_CANONICAL"⟩
  | .ok _ => .ok (resolver spec (authorityRequest classId candidate)).admitted

/-! ## An arm -/

/-- A record, with the candidate that was applied, or would have been. -/
structure Engaged where
  record : EngagementRecord
  candidate : String
  deriving DecidableEq, Repr

/-- The variables of `simulate`, with the epochs of its world and the recipes of its cache. -/
structure SimState where
  epochs : Table ℕ := ∅
  revision : Table ℕ := ∅
  cache : Table (CompiledRecipe C) := ∅
  index : Table String := ∅
  exploredIdentity : Table (ℕ × ℕ) := ∅
  engaged : List Engaged := []
  muSizes : List ℕ := []
  redundant : ℕ := 0
  unverified : ℕ := 0

variable {C}

/-- `World.epoch`. -/
def SimState.epoch (s : SimState C) (classId : String) : ℕ := (s.epochs.lookup classId).getD 0

/-- `revision[cid]`. -/
def SimState.revisionOf (s : SimState C) (classId : String) : Except PyError ℕ :=
  match s.revision.lookup classId with
  | some r => .ok r
  | none => .error ⟨"KeyError", "'" ++ classId ++ "'"⟩

/-- A record, and how many classes are compiled by then. -/
def SimState.record (s : SimState C) (record : EngagementRecord) (candidate : String) :
    SimState C :=
  { s with
    engaged := s.engaged ++ [⟨record, candidate⟩]
    muSizes := s.muSizes ++ [s.index.entries.length] }

variable (C)

def initial : SimState C where
  revision := (classes spec).foldl (fun t classId => t.insert classId 0) ∅

/-- `World.drift`, and a new revision where the drift is announced. -/
def drift (s : SimState C) (ev : DriftEvent) : Except PyError (SimState C) :=
  let s := { s with epochs := s.epochs.insert ev.classId (s.epoch ev.classId + 1) }
  if ev.announced then do
    let r ← s.revisionOf ev.classId
    return { s with revision := s.revision.insert ev.classId (r + 1) }
  else .ok s

/-- The drifts of an engagement. -/
def drifts (i : ℕ) (s : SimState C) : Except PyError (SimState C) :=
  (spec.driftEvents.filter (·.atEngagement = i)).foldlM (drift C) s

/-- The class of an engagement. -/
def classOf (i : ℕ) : String :=
  (classes spec).getD ((rank spec.seed [.str "stream", .int i]).value % (classes spec).length) ""

/-- The recipe that a class has been compiled to. -/
def found (s : SimState C) (classId : String) : Option (CompiledRecipe C) :=
  match s.index.lookup classId with
  | some d => if d = "" then none else s.cache.lookup d
  | none => none

/-- The recipe that is used again, or why there is none. -/
def select (factory : Bool) (s : SimState C) (classId : String) (current : RecipeIdentity) :
    CompiledRecipe C ⊕ ExploreReason :=
  if factory then
    match found C s classId with
    | none => .inr .firstSolve
    | some recipe =>
      if (admitCompiledRecipe recipe current).admitted then .inl recipe else .inr .identityDrift
  else .inr .noCompounding

/-- A refusal of authority. -/
def refusedRecord (i : ℕ) (classId : String) (reason : Option ExploreReason)
    (cognitionEvals verifyEvals : ℕ) : EngagementRecord where
  index := i
  classId
  path := .refusedAuthority
  exploreReason := reason
  cognitionEvals
  lookups := 1
  verifyEvals
  standing := .refused
  reason := "AUTHORITY_NOT_ADMITTED_NO_CONSEQUENCE"

def exploitRecord (i : ℕ) (classId : String) : EngagementRecord where
  index := i
  classId
  path := .exploit
  lookups := 1
  verifyEvals := 1
  verified := true
  standing := .candidate
  reason := "COMPILED_RECIPE_VERIFIED_INDEPENDENTLY"

def exploreRecord (i : ℕ) (classId : String) (reason : ExploreReason)
    (cognitionEvals verifyEvals : ℕ) (ok : Bool) : EngagementRecord where
  index := i
  classId
  path := .explore
  exploreReason := some reason
  cognitionEvals
  lookups := 1
  verifyEvals
  verified := ok
  standing := .candidate
  reason := "EXPLORED_CHALLENGED_ADMITTED_VERIFIED"

/-- What the factory keeps of an exploration. -/
def compiled (s : SimState C) (classId : String) (revision : ℕ) (recipe : CompiledRecipe C) :
    SimState C :=
  { s with
    cache := s.cache.insert recipe.recipeDigest recipe
    index := s.index.insert classId recipe.recipeDigest
    exploredIdentity := s.exploredIdentity.insert classId (revision, s.epoch classId) }

/-- The state after what was found is compiled, by the factory. -/
def keeping (factory : Bool) (classId : String) (current : RecipeIdentity) (revision : ℕ)
    (candidate : String) (receipts : List String) (s : SimState C) : Except PyError (SimState C) :=
  if factory then (compileRecipe C current candidate receipts).map (compiled C s classId revision)
  else .ok s

/-- The exploration of an engagement is one of an identity that was explored before. -/
def isRedundant (factory : Bool) (s : SimState C) (classId : String) (revision : ℕ) : Bool :=
  factory && s.exploredIdentity.lookup classId = some (revision, s.epoch classId)

/-- Explore, compile what was found, and apply it. -/
def exploring (factory : Bool) (i : ℕ) (classId : String) (current : RecipeIdentity)
    (reason : ExploreReason) (preVerify revision : ℕ) (s : SimState C) :
    Except PyError (SimState C) := do
  let s := { s with
    redundant := s.redundant + if isRedundant C factory s classId revision then 1 else 0 }
  let (candidate, receipts, evals) ← explore C rank spec classId (s.epoch classId)
  let s ← keeping C factory classId current revision candidate receipts s
  if ← authorize C spec classId candidate then
    let (ok, _) ← evaluate C rank spec classId (s.epoch classId) candidate "rare" 0
    let s := { s with unverified := s.unverified + if ok then 0 else 1 }
    return s.record (exploreRecord i classId reason evals (preVerify + 1) ok) candidate
  else return s.record (refusedRecord i classId (some reason) evals preVerify) candidate

/-- Use a recipe again, and explore where the verification does not bear it out. -/
def exploiting (factory : Bool) (i : ℕ) (classId : String) (recipe : CompiledRecipe C)
    (s : SimState C) : Except PyError (SimState C) := do
  let candidate := recipe.candidateRef
  if ← authorize C spec classId candidate then
    let (ok, _) ← evaluate C rank spec classId (s.epoch classId) candidate "rare" 0
    if ok then return s.record (exploitRecord i classId) candidate
    else
      let r ← s.revisionOf classId
      let s := { s with revision := s.revision.insert classId (r + 1) }
      let current ← identity C rank spec classId (r + 1)
      exploring C rank spec factory i classId current .verifyDivergence 1 (r + 1) s
  else return s.record (refusedRecord i classId none 0 0) candidate

/-- An engagement, after its drifts. -/
def engage (factory : Bool) (i : ℕ) (s : SimState C) : Except PyError (SimState C) := do
  let classId := classOf rank spec i
  let r ← s.revisionOf classId
  let current ← identity C rank spec classId r
  match select C factory s classId current with
  | .inl recipe => exploiting C rank spec factory i classId recipe s
  | .inr reason => exploring C rank spec factory i classId current reason 0 r s

/-- The loop of `simulate`. -/
def engagements (factory : Bool) : Except PyError (SimState C) :=
  (List.range' 1 spec.nEngagements).foldlM (fun s i => do
    let s ← drifts C spec i s
    engage C rank spec factory i s) (initial C spec)

/-- `ClassCurve(…)` of a class. -/
def curve (records : List EngagementRecord) (classId : String) : ClassCurve :=
  let mine := records.filter (·.classId = classId)
  { classId
    cognitionEvalsPerEngagement := mine.map (·.cognitionEvals)
    firstAdmittedAt := (mine.find? fun r => r.path = .explore && r.verified).map (·.index)
    verifiedReuses := mine.countP fun r => r.path = .exploit && r.verified }

/-- `ArmResult(…)`. -/
def armResult (arm : String) (s : SimState C) : Except PyError ArmResult := do
  let records := s.engaged.map (·.record)
  let traceDigest ← C.digest (.list (records.map EngagementRecord.modelDump))
  return {
    arm
    records
    curves := (classes spec).map (curve records)
    cognitionEvals := (records.map (·.cognitionEvals)).sum
    verifyEvals := (records.map (·.verifyEvals)).sum
    lookups := (records.map (·.lookups)).sum
    redundantExplorations := s.redundant
    unverifiedConsequences := s.unverified
    muSizeByEngagement := s.muSizes
    traceDigest }

def simulate (arm : String) : Except PyError ArmResult :=
  if arm = "factory" ∨ arm = "baseline" then do
    let s ← engagements C rank spec (decide (arm = "factory"))
    armResult C spec arm s
  else .error ⟨"ValueError", "SIM_UNKNOWN_ARM"⟩

end Simulation

end FactorySim

end GymAct
