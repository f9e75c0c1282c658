import Mathlib.Data.Finset.Sort
import Mathlib.Data.List.Dedup
import Mathlib.Data.List.Induction
import Mathlib.Data.String.Basic
import GymAct.Fallible
import GymAct.Tables
import GymAct.Value

/-!
# The commerce world

`EnterpriseCommerceWorld` : agreements, entitlements and their lifecycle, usage, meter
intents, acceptances, settlements, and the enterprise operations over them. Every
operation refuses, raises, or stores a receipt and what it constructed; some write before
the receipt is digested, and keep what they wrote if that raises.

`step_wrote` says once what an operation can do to the tables (`Wrote`). What holds of
whole runs is derived from it : of the bills, of the agreements and of the entitlements.
-/

namespace GymAct

namespace Commerce

/-! ## Records -/

inductive BillingAuthority
  | direct | externalCommerce
  deriving DecidableEq, Repr

def BillingAuthority.value : BillingAuthority → String
  | direct => "DIRECT"
  | externalCommerce => "EXTERNAL_COMMERCE"

inductive EntitlementState
  | pending | active | suspended | cancelled | expired
  deriving DecidableEq, Repr

def EntitlementState.value : EntitlementState → String
  | pending => "PENDING"
  | active => "ACTIVE"
  | suspended => "SUSPENDED"
  | cancelled => "CANCELLED"
  | expired => "EXPIRED"

inductive EventKind
  | create | activate | amend | suspend | reinstate | renew | cancel | expire
  deriving DecidableEq, Repr

def EventKind.value : EventKind → String
  | create => "CREATE"
  | activate => "ACTIVATE"
  | amend => "AMEND"
  | suspend => "SUSPEND"
  | reinstate => "REINSTATE"
  | renew => "RENEW"
  | cancel => "CANCEL"
  | expire => "EXPIRE"

inductive EvidenceOrigin
  | fixture | liveExternal
  deriving DecidableEq, Repr

def EvidenceOrigin.value : EvidenceOrigin → String
  | fixture => "FIXTURE"
  | liveExternal => "LIVE_EXTERNAL"

inductive RefusalCode
  | multipleBillingAuthorities | missingAgreementId | missingEntitlementId | duplicateOrStaleEvent
  | illegalLifecycleTransition | crossTenantEntitlement | usageWithoutActiveEntitlement
  | meterWithoutAdmittedUsage | settlementWithoutProviderAcceptance
  | providerAcceptanceNotObserved | externalDoWithoutAuthority | brceRequired
  | pricingDimensionMismatch | entitlementIdentityCollapse
  deriving DecidableEq, Repr

inductive ExternalBlocker
  | sellerRegistration | tax | banking | kyc | eula | providerReview | providerAcceptance
  deriving DecidableEq, Repr

def ExternalBlocker.value : ExternalBlocker → String
  | sellerRegistration => "seller_registration"
  | tax => "tax"
  | banking => "banking"
  | kyc => "kyc"
  | eula => "eula"
  | providerReview => "provider_review"
  | providerAcceptance => "provider_acceptance"

structure Refusal where
  code : RefusalCode
  reason : String
  deriving DecidableEq, Repr

@[ext]
structure PricingDimension where
  dimensionId : String
  unit : String
  unitPriceMicros : ℤ
  identity_ne : dimensionId ≠ "" ∧ unit ≠ "" := by decide
  price_nonneg : 0 ≤ unitPriceMicros := by decide

instance : DecidableEq PricingDimension := fun _ _ =>
  decidable_of_iff _ PricingDimension.ext_iff.symm

structure CommercialAgreement where
  agreementId : String
  legalEntityId : String
  accountId : String
  productId : String
  offerId : String
  billingAuthority : BillingAuthority
  pricing : List PricingDimension
  effectiveAt : String
  expiresAt : Option String := none
  externalSource : Option String := none
  negotiatedTermsRef : Option String := none
  deriving DecidableEq

namespace CommercialAgreement

def dimensionIds (a : CommercialAgreement) : List String := a.pricing.map (·.dimensionId)

/-- `pricing_by_id.get` : of two dimensions of one id, the last. -/
def pricingById (a : CommercialAgreement) (dimensionId : String) : Option PricingDimension :=
  a.pricing.reverse.find? (·.dimensionId = dimensionId)

end CommercialAgreement

structure Entitlement where
  entitlementId : String
  agreementId : String
  tenantId : String
  productId : String
  state : EntitlementState
  quantity : ℤ
  revision : ℤ
  lastEventId : String
  capabilities : Finset String := ∅
  supportTier : Option String := none
  deriving DecidableEq

structure EntitlementEvent where
  eventId : String
  source : String
  kind : EventKind
  agreementId : String
  entitlementId : String
  tenantId : String
  productId : String
  revision : ℤ
  quantity : ℤ := 1
  capabilities : Finset String := ∅
  supportTier : Option String := none
  deriving DecidableEq

structure UsageObservation where
  observationId : String
  entitlementId : String
  tenantId : String
  dimensionId : String
  quantity : ℤ
  observedAt : String
  admitted : Bool := false
  deriving DecidableEq, Repr

structure MeterIntent where
  intentId : String
  agreementId : String
  entitlementId : String
  dimensionId : String
  quantity : ℤ
  observationIds : List String
  amountMicros : ℤ
  constructedReceipt : String
  deriving DecidableEq, Repr

structure ExternalAcceptance where
  acceptanceId : String
  intentId : String
  provider : String
  observed : Bool
  evidenceRef : String
  acceptedQuantity : ℤ
  evidenceOrigin : EvidenceOrigin := .fixture
  deriving DecidableEq, Repr

structure Settlement where
  settlementId : String
  intentId : String
  acceptanceId : String
  amountMicros : ℤ
  receipt : String
  deriving DecidableEq, Repr

structure BrokerGrant where
  grantId : String
  authority : String
  subjectId : String
  allowedOperation : String
  evidenceRef : String
  deriving DecidableEq, Repr

structure CommerceReceipt where
  receiptId : String
  operation : String
  subjectId : String
  authority : String
  consequenceDigest : String
  replayKey : String
  deriving DecidableEq, Repr

structure PackagingEvidence where
  helmChart : Bool := false
  stableKubernetesApis : Bool := false
  sbom : Bool := false
  vulnerabilityScan : Bool := false
  signedProvenance : Bool := false
  portableRegistryArtifact : Bool := false
  deriving DecidableEq, Repr

namespace PackagingEvidence

def requirements (e : PackagingEvidence) : List (String × Bool) :=
  [("helm_chart", e.helmChart), ("stable_kubernetes_apis", e.stableKubernetesApis),
    ("sbom", e.sbom), ("vulnerability_scan", e.vulnerabilityScan),
    ("signed_provenance", e.signedProvenance),
    ("portable_registry_artifact", e.portableRegistryArtifact)]

def complete (e : PackagingEvidence) : Bool := e.requirements.all (·.2)

def missing (e : PackagingEvidence) : List String :=
  (e.requirements.filter (!·.2)).map (·.1)

end PackagingEvidence

structure IdentityBinding where
  bindingId : String
  accountId : String
  tenantId : String
  issuer : String
  subject : String
  receipt : String
  deriving DecidableEq, Repr

structure FinancialAdjustment where
  adjustmentId : String
  agreementId : String
  kind : String
  amountMicros : ℤ
  reason : String
  receipt : String
  deriving DecidableEq, Repr

structure SupportProjection where
  entitlementId : String
  tenantId : String
  supportTier : String
  capabilities : List String
  receipt : String
  deriving DecidableEq, Repr

structure PackagingAdmission where
  evidence : PackagingEvidence
  receipt : String
  deriving DecidableEq, Repr

/-- `_TRANSITIONS`. -/
def transitions : EntitlementState → EventKind → Option EntitlementState
  | .pending, .activate => some .active
  | .pending, .cancel => some .cancelled
  | .active, .amend => some .active
  | .active, .suspend => some .suspended
  | .active, .renew => some .active
  | .active, .cancel => some .cancelled
  | .active, .expire => some .expired
  | .suspended, .reinstate => some .active
  | .suspended, .cancel => some .cancelled
  | .suspended, .expire => some .expired
  | _, _ => none

/-- `EnterpriseCommerceWorld`, with the fields of `CommerceWorld`. -/
structure World where
  agreements : Table CommercialAgreement := ∅
  entitlements : Table Entitlement := ∅
  usage : Table UsageObservation := ∅
  meterIntents : Table MeterIntent := ∅
  acceptances : Table ExternalAcceptance := ∅
  settlements : Table Settlement := ∅
  processedEvents : Finset String := ∅
  receipts : Table CommerceReceipt := ∅
  externalEvidence : List (ExternalBlocker × String × EvidenceOrigin) := []
  identityBindings : Table IdentityBinding := ∅
  agreementRevisions : Table ℤ := ∅
  agreementStatus : Table String := ∅
  adjustments : Table FinancialAdjustment := ∅
  supportProjections : Table SupportProjection := ∅
  packagingAdmission : Option PackagingAdmission := none

/-- A program over a commerce world. -/
abbrev CommerceM (α : Type) := Fallible.Prog PyError World α

/-- What an operation answers : a receipt, with what it is for, or a refusal. -/
abbrev Answer (α : Type) := Except Refusal (α × CommerceReceipt)

def refuse {α : Type} (code : RefusalCode) (reason : String) : CommerceM (Answer α) :=
  pure (.error ⟨code, reason⟩)

/-- `d[key]`. -/
def index {α : Type} (t : Table α) (key : String) : CommerceM α :=
  match t.lookup key with
  | some a => pure a
  | none => throw ⟨"KeyError", key⟩

/-- Sorted names. -/
def sortedNames (l : List String) : List String := l.insertionSort (· ≤ ·)

/-! ## The kernel's operations -/

section Operations

-- `_digest`, which is `sha256` of canonical JSON
variable (digest : Value → Except PyError String)

/-- `_receipt`. -/
def receipt (operation subjectId authority : String) (consequence : Payload) (replayKey : String) :
    Except PyError CommerceReceipt := do
  let consequenceDigest ← digest (.dict consequence)
  let receiptId ← digest (.dict [("operation", .str operation), ("subject", .str subjectId),
    ("authority", .str authority), ("consequence", .str consequenceDigest),
    ("replay", .str replayKey)])
  return ⟨receiptId, operation, subjectId, authority, consequenceDigest, replayKey⟩

/-- `_store` of a new `_receipt`. -/
def store (operation subjectId authority : String) (consequence : Payload) (replayKey : String) :
    CommerceM CommerceReceipt :=
  match receipt digest operation subjectId authority consequence replayKey with
  | .error e => throw e
  | .ok r => do
    modify fun w => { w with receipts := w.receipts.insert r.receiptId r }
    return r

/-- The checks of `CommerceWorld.admit_agreement`. -/
def agreementRefusal (w : World) (agreement : CommercialAgreement) : Option Refusal :=
  if agreement.agreementId = "" then some ⟨.missingAgreementId, "agreement_id required"⟩
  else if ∃ existing ∈ w.agreements.lookup agreement.agreementId,
      existing.billingAuthority ≠ agreement.billingAuthority then
    some ⟨.multipleBillingAuthorities, "agreement already has a different billing authority"⟩
  else if agreement.dimensionIds.length ≠ agreement.dimensionIds.dedup.length then
    some ⟨.pricingDimensionMismatch, "pricing dimensions must be unique"⟩
  else none

/-- `EnterpriseCommerceWorld.admit_agreement`. -/
def admitAgreement (agreement : CommercialAgreement) : CommerceM (Answer CommercialAgreement) := do
  let w ← get
  match agreementRefusal w agreement with
  | some refusal => pure (.error refusal)
  | none => do
    let id := agreement.agreementId
    modify fun w => { w with agreements := w.agreements.insert id agreement }
    let r ← store digest "agreement.admit" id "commerce-kernel"
      [("authority", .str agreement.billingAuthority.value), ("account", .str agreement.accountId),
        ("product", .str agreement.productId), ("pricing", .ofStrings agreement.dimensionIds)]
      ("agreement:" ++ id)
    modify fun w => { w with
      agreementRevisions :=
        w.agreementRevisions.insert id ((w.agreementRevisions.lookup id).getD 1)
      agreementStatus := w.agreementStatus.insert id ((w.agreementStatus.lookup id).getD "ACTIVE") }
    return .ok (agreement, r)

/-- Why `_brce` refuses. -/
def brceRefusal (operation subjectId : String) : Option BrokerGrant → Option Refusal
  | none => some ⟨.brceRequired, operation ++ " requires BRCE"⟩
  | some grant =>
    if grant.subjectId ≠ subjectId ∨ grant.allowedOperation ≠ operation then
      some ⟨.brceRequired, "broker grant does not match operation"⟩
    else none

/-- `_brce`. -/
def brce (operation subjectId : String) (grant : Option BrokerGrant) (consequence : Payload)
    (replayKey : String) : CommerceM (Except Refusal CommerceReceipt) :=
  match brceRefusal operation subjectId grant with
  | some refusal => pure (.error refusal)
  | none => do
    let r ← store digest operation subjectId ((grant.map BrokerGrant.authority).getD "") consequence
      replayKey
    return .ok r

/-- The state an event leads to, or why it is refused before the broker is asked. -/
def eventTarget (w : World) (source : String) (event : EntitlementEvent) :
    Except Refusal EntitlementState :=
  if source ≠ event.source then
    .error ⟨.externalDoWithoutAuthority, "routed source mismatch"⟩
  else if event.entitlementId = "" then .error ⟨.missingEntitlementId, "id required"⟩
  else
    match w.agreements.lookup event.agreementId with
    | none => .error ⟨.missingAgreementId, "unknown agreement"⟩
    | some agreement =>
      if event.eventId ∈ w.processedEvents then .error ⟨.duplicateOrStaleEvent, "event replay"⟩
      else if event.productId ≠ agreement.productId then
        .error ⟨.crossTenantEntitlement, "product/agreement mismatch"⟩
      else
        match w.entitlements.lookup event.entitlementId with
        | none =>
          if event.kind ≠ .create ∨ event.revision ≠ 1 then
            .error ⟨.illegalLifecycleTransition, "new entitlement requires CREATE revision 1"⟩
          else .ok .pending
        | some current =>
          if current.agreementId ≠ event.agreementId ∨ current.tenantId ≠ event.tenantId then
            .error ⟨.crossTenantEntitlement, "entitlement cannot move agreement/tenant"⟩
          else if event.revision ≤ current.revision then
            .error ⟨.duplicateOrStaleEvent, "stale revision"⟩
          else
            match transitions current.state event.kind with
            | none => .error ⟨.illegalLifecycleTransition,
                current.state.value ++ " cannot apply " ++ event.kind.value⟩
            | some target => .ok target

/-- The entitlement that an event makes. -/
def candidate (event : EntitlementEvent) (target : EntitlementState) : Entitlement :=
  ⟨event.entitlementId, event.agreementId, event.tenantId, event.productId, target, event.quantity,
    event.revision, event.eventId, event.capabilities, event.supportTier⟩

def applyEntitlementEvent (source : String) (event : EntitlementEvent)
    (grant : Option BrokerGrant) : CommerceM (Answer Entitlement) := do
  let w ← get
  match eventTarget w source event with
  | .error refusal => pure (.error refusal)
  | .ok target => do
    match ← brce digest "entitlement.apply-event" event.entitlementId grant
      [("state", .str target.value), ("revision", .int event.revision),
        ("quantity", .int event.quantity),
        ("capabilities", .ofStrings (event.capabilities.sort (· ≤ ·)))]
      ("event:" ++ event.eventId) with
    | .error refusal => pure (.error refusal)
    | .ok r => do
      let entitlement := candidate event target
      modify fun w => { w with
        entitlements := w.entitlements.insert event.entitlementId entitlement
        processedEvents := insert event.eventId w.processedEvents }
      return .ok (entitlement, r)

def observeUsage (observation : UsageObservation) : CommerceM CommerceReceipt := do
  let id := observation.observationId
  modify fun w => { w with usage := w.usage.insert id { observation with admitted := false } }
  store digest "usage.observe" id "observation"
    [("entitlement", .str observation.entitlementId), ("dimension", .str observation.dimensionId),
      ("quantity", .int observation.quantity)] ("usage:" ++ id)

def admitUsage (observationId : String) : CommerceM (Answer UsageObservation) := do
  let w ← get
  let observation ← index w.usage observationId
  match w.entitlements.lookup observation.entitlementId with
  | none => refuse .usageWithoutActiveEntitlement "entitlement not active"
  | some entitlement =>
    if entitlement.state ≠ .active then
      refuse .usageWithoutActiveEntitlement "entitlement not active"
    else if entitlement.tenantId ≠ observation.tenantId then
      refuse .crossTenantEntitlement "usage tenant mismatch"
    else do
      let agreement ← index w.agreements entitlement.agreementId
      if (agreement.pricingById observation.dimensionId).isNone then
        refuse .pricingDimensionMismatch "dimension not priced"
      else do
        let admitted := { observation with admitted := true }
        modify fun w => { w with usage := w.usage.insert observationId admitted }
        let r ← store digest "usage.admit" observationId "commerce-kernel"
          [("admitted", .bool true), ("entitlement", .str observation.entitlementId)]
          ("usage-admit:" ++ observationId)
        return .ok (admitted, r)

/-- The observations of these ids, each looked up with `usage[id]`. -/
def indexAll {α : Type} (t : Table α) : List String → CommerceM (List α)
  | [] => pure []
  | key :: keys => do
    let a ← index t key
    let rest ← indexAll t keys
    return a :: rest

def constructMeterIntent (intentId : String) (observationIds : List String) :
    CommerceM (Answer MeterIntent) := do
  let w ← get
  let observations ← indexAll w.usage observationIds
  if observations = [] ∨ ∃ o ∈ observations, o.admitted = false then
    refuse .meterWithoutAdmittedUsage "all usage must be admitted"
  else
    match (observations.map (·.entitlementId)).dedup, (observations.map (·.dimensionId)).dedup with
    | [entitlementId], [dimensionId] => do
      let entitlement ← index w.entitlements entitlementId
      let agreement ← index w.agreements entitlement.agreementId
      match agreement.pricingById dimensionId with
      | none => refuse .pricingDimensionMismatch "dimension not priced"
      | some price => do
        let quantity := (observations.map (·.quantity)).sum
        let amount := quantity * price.unitPriceMicros
        let r ← store digest "meter.construct" intentId "commerce-kernel"
          [("agreement", .str agreement.agreementId), ("entitlement", .str entitlementId),
            ("dimension", .str dimensionId), ("quantity", .int quantity), ("amount", .int amount),
            ("observations", .ofStrings (sortedNames observationIds))] ("meter:" ++ intentId)
        let intent : MeterIntent := ⟨intentId, agreement.agreementId, entitlementId, dimensionId,
          quantity, sortedNames observationIds, amount, r.receiptId⟩
        modify fun w => { w with meterIntents := w.meterIntents.insert intentId intent }
        return .ok (intent, r)
    | _, _ => refuse .meterWithoutAdmittedUsage "intent must bind one entitlement/dimension"

/-- Why an acceptance is not admitted. -/
def acceptanceRefusal (w : World) (acceptance : ExternalAcceptance) : Option Refusal :=
  if acceptance.observed = false ∨ acceptance.evidenceRef = "" ∨
      acceptance.evidenceOrigin ≠ .liveExternal then
    some ⟨.providerAcceptanceNotObserved,
      "provider acceptance requires observed LIVE_EXTERNAL evidence"⟩
  else if w.meterIntents.lookup acceptance.intentId = none then
    some ⟨.meterWithoutAdmittedUsage, "unknown meter intent"⟩
  else none

def admitExternalAcceptance (acceptance : ExternalAcceptance) :
    CommerceM (Answer ExternalAcceptance) := do
  let w ← get
  match acceptanceRefusal w acceptance with
  | some refusal => pure (.error refusal)
  | none => do
    let id := acceptance.acceptanceId
    modify fun w => { w with acceptances := w.acceptances.insert id acceptance }
    let r ← store digest "provider.acceptance.admit" id acceptance.provider
      [("intent", .str acceptance.intentId), ("quantity", .int acceptance.acceptedQuantity),
        ("evidence", .str acceptance.evidenceRef)] ("acceptance:" ++ id)
    return .ok (acceptance, r)

def reconcile (settlementId acceptanceId : String) : CommerceM (Answer Settlement) := do
  let w ← get
  match w.acceptances.lookup acceptanceId with
  | none => refuse .settlementWithoutProviderAcceptance "acceptance is not admitted"
  | some acceptance => do
    let intent ← index w.meterIntents acceptance.intentId
    if acceptance.acceptedQuantity ≠ intent.quantity then
      refuse .settlementWithoutProviderAcceptance "accepted quantity differs from meter intent"
    else do
      let r ← store digest "settlement.reconcile" settlementId "commerce-kernel"
        [("intent", .str intent.intentId), ("acceptance", .str acceptanceId),
          ("amount", .int intent.amountMicros)] ("settlement:" ++ settlementId)
      let settlement : Settlement :=
        ⟨settlementId, intent.intentId, acceptanceId, intent.amountMicros, r.receiptId⟩
      modify fun w => { w with settlements := w.settlements.insert settlementId settlement }
      return .ok (settlement, r)

def admitExternalBlockerEvidence (blocker : ExternalBlocker) (evidenceRef : String)
    (origin : EvidenceOrigin) : CommerceM (Except Refusal CommerceReceipt) :=
  if evidenceRef = "" ∨ origin ≠ .liveExternal then
    pure (.error ⟨.providerAcceptanceNotObserved,
      blocker.value ++ " requires observed LIVE_EXTERNAL evidence"⟩)
  else do
    modify fun w => { w with
      externalEvidence := (blocker, evidenceRef, origin) ::
        w.externalEvidence.filter (·.1 ≠ blocker) }
    let r ← store digest "external-evidence.admit" blocker.value "external"
      [("evidence", .str evidenceRef), ("origin", .str origin.value)]
      ("external:" ++ blocker.value ++ ":" ++ evidenceRef)
    return .ok r

/-! ## The enterprise operations -/

def bindIdentity (bindingId accountId tenantId issuer subject : String) :
    CommerceM (Answer IdentityBinding) := do
  let w ← get
  if "" ∈ [bindingId, accountId, tenantId, issuer, subject] then
    refuse .crossTenantEntitlement "identity binding requires exact account/tenant/issuer/subject"
  else if ∃ item ∈ w.identityBindings.entries, item.2.issuer = issuer ∧ item.2.subject = subject ∧
      (item.2.tenantId ≠ tenantId ∨ item.2.accountId ≠ accountId) then
    refuse .crossTenantEntitlement "external subject already bound to another account/tenant"
  else do
    let r ← store digest "identity.bind" bindingId "commerce-kernel"
      [("account", .str accountId), ("tenant", .str tenantId), ("issuer", .str issuer),
        ("subject", .str subject)] ("identity:" ++ bindingId)
    let binding : IdentityBinding := ⟨bindingId, accountId, tenantId, issuer, subject, r.receiptId⟩
    modify fun w => { w with identityBindings := w.identityBindings.insert bindingId binding }
    return .ok (binding, r)

/-- `amend_agreement` and `renew_agreement` : the same checks, with their own change of the
agreement, consequence and verb. -/
def changeAgreement (verb : String) (change : CommercialAgreement → CommercialAgreement)
    (consequence : ℤ → Payload) (agreementId : String) (grant : Option BrokerGrant) :
    CommerceM (Answer CommercialAgreement) := do
  let w ← get
  match w.agreements.lookup agreementId with
  | none => refuse .missingAgreementId "unknown agreement"
  | some current =>
    if w.agreementStatus.lookup agreementId = some "CANCELLED" then
      refuse .illegalLifecycleTransition ("cancelled agreement cannot be " ++ verb ++ "ed")
    else do
      let revision := (w.agreementRevisions.lookup agreementId).getD 1 + 1
      match ← brce digest ("agreement." ++ verb) agreementId grant (consequence revision)
        ("agreement-" ++ verb ++ ":" ++ agreementId ++ ":" ++ toString revision) with
      | .error refusal => pure (.error refusal)
      | .ok r => do
        modify fun w => { w with
          agreements := w.agreements.insert agreementId (change current)
          agreementRevisions := w.agreementRevisions.insert agreementId revision }
        return .ok (change current, r)

def amendAgreement (agreementId : String) (pricing : List PricingDimension) (offerId : String)
    (grant : Option BrokerGrant) : CommerceM (Answer CommercialAgreement) :=
  changeAgreement digest "amend" (fun current => { current with pricing, offerId })
    (fun revision => [("revision", .int revision), ("offer_id", .str offerId),
      ("pricing", .ofStrings (pricing.map (·.dimensionId)))]) agreementId grant

def renewAgreement (agreementId expiresAt : String) (grant : Option BrokerGrant) :
    CommerceM (Answer CommercialAgreement) :=
  changeAgreement digest "renew" (fun current => { current with expiresAt := some expiresAt })
    (fun revision => [("revision", .int revision), ("expires_at", .str expiresAt)]) agreementId grant

def cancelAgreement (agreementId : String) (grant : Option BrokerGrant) :
    CommerceM (Except Refusal CommerceReceipt) := do
  let w ← get
  if w.agreements.lookup agreementId = none then
    pure (.error ⟨.missingAgreementId, "unknown agreement"⟩)
  else if w.agreementStatus.lookup agreementId = some "CANCELLED" then
    pure (.error ⟨.duplicateOrStaleEvent, "agreement already cancelled"⟩)
  else do
    match ← brce digest "agreement.cancel" agreementId grant [("status", .str "CANCELLED")]
      ("agreement-cancel:" ++ agreementId) with
    | .error refusal => pure (.error refusal)
    | .ok r => do
      modify fun w => { w with
        agreementStatus := w.agreementStatus.insert agreementId "CANCELLED" }
      return .ok r

/-- `_construct_adjustment`. -/
def constructAdjustment (kind adjustmentId agreementId : String) (amountMicros : ℤ)
    (reason : String) : CommerceM (Answer FinancialAdjustment) := do
  let w ← get
  if w.agreements.lookup agreementId = none then
    refuse .missingAgreementId "unknown agreement"
  else if amountMicros ≤ 0 then
    refuse .pricingDimensionMismatch "adjustment amount must be positive"
  else do
    let r ← store digest (kind ++ ".construct") adjustmentId "commerce-kernel"
      [("agreement", .str agreementId), ("amount_micros", .int amountMicros),
        ("reason", .str reason)] (kind ++ ":" ++ adjustmentId)
    let adjustment : FinancialAdjustment :=
      ⟨adjustmentId, agreementId, kind, amountMicros, reason, r.receiptId⟩
    modify fun w => { w with adjustments := w.adjustments.insert adjustmentId adjustment }
    return .ok (adjustment, r)

def projectSupport (entitlementId : String) : CommerceM (Answer SupportProjection) := do
  let w ← get
  match w.entitlements.lookup entitlementId with
  | none => refuse .missingEntitlementId "support projection requires entitled support tier"
  | some entitlement =>
    let supportTier := entitlement.supportTier.getD ""
    if supportTier = "" then
      refuse .missingEntitlementId "support projection requires entitled support tier"
    else do
      let capabilities := entitlement.capabilities.sort (· ≤ ·)
      let r ← store digest "support.entitle" entitlementId "commerce-kernel"
        [("tenant", .str entitlement.tenantId), ("support_tier", .str supportTier),
          ("capabilities", .ofStrings capabilities)]
        ("support:" ++ entitlementId ++ ":" ++ toString entitlement.revision)
      let projection : SupportProjection :=
        ⟨entitlementId, entitlement.tenantId, supportTier, capabilities, r.receiptId⟩
      modify fun w => { w with
        supportProjections := w.supportProjections.insert entitlementId projection }
      return .ok (projection, r)

def admitPackaging (evidence : PackagingEvidence) : CommerceM (Answer PackagingAdmission) :=
  if evidence.complete = false then
    refuse .pricingDimensionMismatch
      ("packaging evidence incomplete: " ++ ",".intercalate evidence.missing)
  else do
    let r ← store digest "packaging.admit" "portable-artifact" "commerce-kernel"
      [("complete", .bool true), ("requirements", .int 6)] "packaging:portable-artifact"
    modify fun w => { w with packagingAdmission := some ⟨evidence, r.receiptId⟩ }
    return .ok (⟨evidence, r.receiptId⟩, r)

end Operations

/-! ## Runs -/

inductive CommerceOp
  | admitAgreement (agreement : CommercialAgreement)
  | applyEntitlementEvent (source : String) (event : EntitlementEvent) (grant : Option BrokerGrant)
  | observeUsage (observation : UsageObservation)
  | admitUsage (observationId : String)
  | constructMeterIntent (intentId : String) (observationIds : List String)
  | admitExternalAcceptance (acceptance : ExternalAcceptance)
  | reconcile (settlementId acceptanceId : String)
  | admitExternalBlockerEvidence (blocker : ExternalBlocker) (evidenceRef : String)
      (origin : EvidenceOrigin)
  | bindIdentity (bindingId accountId tenantId issuer subject : String)
  | amendAgreement (agreementId : String) (pricing : List PricingDimension) (offerId : String)
      (grant : Option BrokerGrant)
  | renewAgreement (agreementId expiresAt : String) (grant : Option BrokerGrant)
  | cancelAgreement (agreementId : String) (grant : Option BrokerGrant)
  | constructCredit (adjustmentId agreementId : String) (amountMicros : ℤ) (reason : String)
  | constructRefund (adjustmentId agreementId : String) (amountMicros : ℤ) (reason : String)
  | projectSupport (entitlementId : String)
  | admitPackaging (evidence : PackagingEvidence)

/-- What a call ends with : an exception, a refusal or a receipt. -/
abbrev Reply := Except PyError (Except Refusal CommerceReceipt)

section Runs

variable (digest : Value → Except PyError String)

def CommerceOp.program : CommerceOp → CommerceM (Except Refusal CommerceReceipt)
  | admitAgreement a => Except.map Prod.snd <$> Commerce.admitAgreement digest a
  | applyEntitlementEvent s e g =>
    Except.map Prod.snd <$> Commerce.applyEntitlementEvent digest s e g
  | observeUsage o => Except.ok <$> Commerce.observeUsage digest o
  | admitUsage id => Except.map Prod.snd <$> Commerce.admitUsage digest id
  | constructMeterIntent id ids => Except.map Prod.snd <$> Commerce.constructMeterIntent digest id ids
  | admitExternalAcceptance a => Except.map Prod.snd <$> Commerce.admitExternalAcceptance digest a
  | reconcile s a => Except.map Prod.snd <$> Commerce.reconcile digest s a
  | admitExternalBlockerEvidence b e o => Commerce.admitExternalBlockerEvidence digest b e o
  | bindIdentity b a t i s => Except.map Prod.snd <$> Commerce.bindIdentity digest b a t i s
  | amendAgreement id p o g => Except.map Prod.snd <$> Commerce.amendAgreement digest id p o g
  | renewAgreement id e g => Except.map Prod.snd <$> Commerce.renewAgreement digest id e g
  | cancelAgreement id g => Commerce.cancelAgreement digest id g
  | constructCredit id a m r =>
    Except.map Prod.snd <$> Commerce.constructAdjustment digest "credit" id a m r
  | constructRefund id a m r =>
    Except.map Prod.snd <$> Commerce.constructAdjustment digest "refund" id a m r
  | projectSupport id => Except.map Prod.snd <$> Commerce.projectSupport digest id
  | admitPackaging e => Except.map Prod.snd <$> Commerce.admitPackaging digest e

/-- One call. It always ends (`step_of_wp`). -/
def step (w : World) (op : CommerceOp) : Reply × World :=
  ((op.program digest) w).getD (.error ⟨"", ""⟩, w)

/-- The world after some calls, whatever they end with. -/
def run (ops : List CommerceOp) : World := ops.foldl (fun w op => (step digest w op).2) {}

@[simp] theorem run_nil : run digest [] = {} := rfl

theorem run_snoc (ops : List CommerceOp) (op : CommerceOp) :
    run digest (ops ++ [op]) = (step digest (run digest ops) op).2 := by
  simp [run]

/-- A call of a run, with the worlds around it. -/
structure Taken where
  before : World
  op : CommerceOp
  reply : Reply
  after : World

/-- The calls of a run from a world. -/
def traceFrom (w : World) : List CommerceOp → List Taken
  | [] => []
  | op :: ops =>
    ⟨w, op, (step digest w op).1, (step digest w op).2⟩ :: traceFrom (step digest w op).2 ops

def trace (ops : List CommerceOp) : List Taken := traceFrom digest {} ops

@[simp] theorem trace_nil : trace digest [] = [] := rfl

theorem traceFrom_snoc (w : World) (ops : List CommerceOp) (op : CommerceOp) :
    traceFrom digest w (ops ++ [op]) = traceFrom digest w ops ++
      [⟨ops.foldl (fun w op => (step digest w op).2) w, op,
        (step digest (ops.foldl (fun w op => (step digest w op).2) w) op).1,
        (step digest (ops.foldl (fun w op => (step digest w op).2) w) op).2⟩] := by
  induction ops generalizing w with
  | nil => rfl
  | cons op' ops ih => simp [traceFrom, ih]

/-- A call after a run. -/
def taken (ops : List CommerceOp) (op : CommerceOp) : Taken :=
  ⟨run digest ops, op, (step digest (run digest ops) op).1, run digest (ops ++ [op])⟩

@[simp] theorem taken_before (ops : List CommerceOp) (op : CommerceOp) :
    (taken digest ops op).before = run digest ops := rfl

@[simp] theorem taken_after (ops : List CommerceOp) (op : CommerceOp) :
    (taken digest ops op).after = run digest (ops ++ [op]) := rfl

theorem trace_snoc (ops : List CommerceOp) (op : CommerceOp) :
    trace digest (ops ++ [op]) = trace digest ops ++ [taken digest ops op] := by
  rw [taken, run_snoc]
  exact traceFrom_snoc digest {} ops op

end Runs

/-! ## What an operation writes -/

/-- The tables that refer to each other. -/
structure Tables where
  agreements : Table CommercialAgreement
  agreementStatus : Table String
  entitlements : Table Entitlement
  processedEvents : Finset String
  usage : Table UsageObservation
  meterIntents : Table MeterIntent
  acceptances : Table ExternalAcceptance
  settlements : Table Settlement
  adjustments : Table FinancialAdjustment

def World.tables (w : World) : Tables :=
  ⟨w.agreements, w.agreementStatus, w.entitlements, w.processedEvents, w.usage, w.meterIntents,
    w.acceptances, w.settlements, w.adjustments⟩

/-- An operation on adjustments or on other fields. -/
def CommerceOp.isAside : CommerceOp → Bool
  | admitExternalBlockerEvidence .. | bindIdentity .. | constructCredit .. | constructRefund ..
  | projectSupport .. | admitPackaging .. => true
  | _ => false

/-- What `construct_meter_intent` checks of the observations, and the price they have. -/
structure Meterable (t : Tables) (observationIds : List String) (entitlementId dimensionId : String)
    (observations : List UsageObservation) (price : PricingDimension) : Prop where
  stored : observationIds.map t.usage.lookup = observations.map some
  nonempty : observations ≠ []
  admitted : ∀ o ∈ observations, o.admitted = true
  entitlement_eq : ∀ o ∈ observations, o.entitlementId = entitlementId
  dimension_eq : ∀ o ∈ observations, o.dimensionId = dimensionId
  priced : ∃ entitlement agreement, t.entitlements.lookup entitlementId = some entitlement ∧
    t.agreements.lookup entitlement.agreementId = some agreement ∧
    agreement.pricingById dimensionId = some price

/-- The meter intent of such observations. -/
structure Metered (t : Tables) (observationIds : List String) (intent : MeterIntent)
    (observations : List UsageObservation) (price : PricingDimension) : Prop extends
    Meterable t observationIds intent.entitlementId intent.dimensionId observations price where
  ids_eq : intent.observationIds = sortedNames observationIds
  quantity_eq : intent.quantity = (observations.map (·.quantity)).sum
  amount_eq : intent.amountMicros = intent.quantity * price.unitPriceMicros

/-- What an operation did to the world : raised, refused, or wrote one entry. -/
inductive Wrote (w : World) : CommerceOp → Reply → World → Prop
  | raised (op : CommerceOp) (e : PyError) : Wrote w op (.error e) w
  | refused (op : CommerceOp) (refusal : Refusal) : Wrote w op (.ok (.error refusal)) w
  | aside {op : CommerceOp} (hop : op.isAside = true) (reply : Reply) {w' : World}
      {adjustments : Table FinancialAdjustment}
      (hadjusted : ∀ id a, adjustments.lookup id = some a →
        w.adjustments.lookup id = some a ∨ 0 < a.amountMicros)
      (htables : w'.tables = { w.tables with adjustments }) : Wrote w op reply w'
  | admitted {agreement : CommercialAgreement} (hchecks : agreementRefusal w agreement = none)
      (reply : Reply) {w' : World} {status : Table String}
      (hstatus : ∀ id, status.lookup id = some "CANCELLED" ↔
        w.agreementStatus.lookup id = some "CANCELLED")
      (htables : w'.tables = { w.tables with
        agreements := w.agreements.insert agreement.agreementId agreement
        agreementStatus := status }) : Wrote w (.admitAgreement agreement) reply w'
  | applied {source : String} {event : EntitlementEvent} {grant : BrokerGrant}
      {target : EntitlementState} (htarget : eventTarget w source event = .ok target)
      (hgrant : grant.subjectId = event.entitlementId ∧
        grant.allowedOperation = "entitlement.apply-event")
      {r : CommerceReceipt} {w' : World} (hreceipt : w'.receipts.lookup r.receiptId = some r)
      (hr : r.operation = "entitlement.apply-event" ∧ r.subjectId = event.entitlementId)
      (htables : w'.tables = { w.tables with
        entitlements := w.entitlements.insert event.entitlementId (candidate event target)
        processedEvents := insert event.eventId w.processedEvents }) :
      Wrote w (.applyEntitlementEvent source event (some grant)) (.ok (.ok r)) w'
  | observed (observation : UsageObservation) (reply : Reply) {w' : World}
      (htables : w'.tables = { w.tables with
        usage := w.usage.insert observation.observationId { observation with admitted := false } }) :
      Wrote w (.observeUsage observation) reply w'
  | usageAdmitted {observationId : String} {observation : UsageObservation}
      (hstored : w.usage.lookup observationId = some observation) (reply : Reply) {w' : World}
      (htables : w'.tables = { w.tables with
        usage := w.usage.insert observationId { observation with admitted := true } }) :
      Wrote w (.admitUsage observationId) reply w'
  | constructed {intentId : String} {observationIds : List String} (intent : MeterIntent)
      (observations : List UsageObservation) (price : PricingDimension)
      (hid : intent.intentId = intentId)
      (hmetered : Metered w.tables observationIds intent observations price) (reply : Reply)
      {w' : World}
      (htables : w'.tables = { w.tables with
        meterIntents := w.meterIntents.insert intentId intent }) :
      Wrote w (.constructMeterIntent intentId observationIds) reply w'
  | accepted {acceptance : ExternalAcceptance} (hchecks : acceptanceRefusal w acceptance = none)
      (reply : Reply) {w' : World}
      (htables : w'.tables = { w.tables with
        acceptances := w.acceptances.insert acceptance.acceptanceId acceptance }) :
      Wrote w (.admitExternalAcceptance acceptance) reply w'
  | settled {settlementId acceptanceId receiptId : String} {acceptance : ExternalAcceptance}
      {intent : MeterIntent} (hacceptance : w.acceptances.lookup acceptanceId = some acceptance)
      (hintent : w.meterIntents.lookup acceptance.intentId = some intent)
      (hquantity : acceptance.acceptedQuantity = intent.quantity) (reply : Reply) {w' : World}
      (htables : w'.tables = { w.tables with
        settlements := w.settlements.insert settlementId
          ⟨settlementId, intent.intentId, acceptanceId, intent.amountMicros, receiptId⟩ }) :
      Wrote w (.reconcile settlementId acceptanceId) reply w'
  | changed {op : CommerceOp} {verb agreementId : String} {grant : BrokerGrant}
      {current next : CommercialAgreement}
      (hop : (verb = "amend" ∧ ∃ pricing offerId,
          op = .amendAgreement agreementId pricing offerId (some grant) ∧
            next = { current with pricing, offerId }) ∨
        (verb = "renew" ∧ ∃ expiresAt, op = .renewAgreement agreementId expiresAt (some grant) ∧
          next = { current with expiresAt := some expiresAt }))
      (hcurrent : w.agreements.lookup agreementId = some current)
      (hlive : w.agreementStatus.lookup agreementId ≠ some "CANCELLED")
      (hgrant : grant.subjectId = agreementId ∧ grant.allowedOperation = "agreement." ++ verb)
      (reply : Reply) {w' : World}
      (htables : w'.tables = { w.tables with
        agreements := w.agreements.insert agreementId next }) :
      Wrote w op reply w'
  | cancelled {agreementId : String} {grant : Option BrokerGrant} {current : CommercialAgreement}
      (hcurrent : w.agreements.lookup agreementId = some current) (reply : Reply) {w' : World}
      (htables : w'.tables = { w.tables with
        agreementStatus := w.agreementStatus.insert agreementId "CANCELLED" }) :
      Wrote w (.cancelAgreement agreementId grant) reply w'

/-! ## Every operation -/

section Operations

variable {digest : Value → Except PyError String} {w : World}

theorem receipt_eq_ok {operation subjectId authority replayKey : String} {consequence : Payload}
    {r : CommerceReceipt}
    (h : receipt digest operation subjectId authority consequence replayKey = .ok r) :
    r.operation = operation ∧ r.subjectId = subjectId := by
  simp only [receipt, Fallible.bind_eq_ok] at h
  obtain ⟨d, -, id, -, h⟩ := h
  obtain rfl := Except.ok.inj h
  exact ⟨rfl, rfl⟩

/-- `store` raises before it writes. -/
theorem wp_store {operation subjectId authority replayKey : String} {consequence : Payload}
    {post : CommerceReceipt → World → Prop} {err : PyError → World → Prop}
    (herr : ∀ e, err e w)
    (hpost : ∀ r : CommerceReceipt, r.operation = operation → r.subjectId = subjectId →
      post r { w with receipts := w.receipts.insert r.receiptId r }) :
    Fallible.wp (store digest operation subjectId authority consequence replayKey) post err False
      w := by
  unfold store
  split
  · exact herr _
  · next r hr =>
    obtain ⟨hop, hsubject⟩ := receipt_eq_ok hr
    exact hpost r hop hsubject

theorem wp_index {α : Type} {t : Table α} {key : String} {post : α → World → Prop}
    {err : PyError → World → Prop} (herr : ∀ e, err e w)
    (hpost : ∀ a, t.lookup key = some a → post a w) :
    Fallible.wp (index t key) post err False w := by
  unfold index
  split
  · next a ha => exact hpost a ha
  · exact herr _

theorem wp_indexAll {α : Type} {t : Table α} {err : PyError → World → Prop} (herr : ∀ e, err e w) :
    ∀ {keys : List String} {post : List α → World → Prop},
      (∀ as, keys.map t.lookup = as.map some → post as w) →
      Fallible.wp (indexAll t keys) post err False w
  | [], _, hpost => hpost [] rfl
  | key :: keys, _, hpost => by
    rw [indexAll, Fallible.wp_bind]
    refine wp_index herr fun a ha => ?_
    rw [Fallible.wp_bind]
    exact wp_indexAll herr fun as has => hpost (a :: as) (by simp [ha, has])

theorem brceRefusal_eq_none {operation subjectId : String} {grant : Option BrokerGrant}
    (h : brceRefusal operation subjectId grant = none) :
    ∃ g, grant = some g ∧ g.subjectId = subjectId ∧ g.allowedOperation = operation := by
  cases grant with
  | none => cases h
  | some g =>
    simp only [brceRefusal] at h
    split_ifs at h with hne
    exact ⟨g, rfl, not_not.mp fun hs => hne (Or.inl hs), not_not.mp fun ho => hne (Or.inr ho)⟩

/-- `_brce` refuses or raises without writing, or stores a receipt under a matching grant. -/
theorem wp_brce {operation subjectId replayKey : String} {grant : Option BrokerGrant}
    {consequence : Payload} {post : Except Refusal CommerceReceipt → World → Prop}
    {err : PyError → World → Prop} (herr : ∀ e, err e w)
    (hrefused : ∀ refusal, post (.error refusal) w)
    (hpost : ∀ (g : BrokerGrant) (r : CommerceReceipt), grant = some g →
      g.subjectId = subjectId ∧ g.allowedOperation = operation →
      r.operation = operation ∧ r.subjectId = subjectId →
      post (.ok r) { w with receipts := w.receipts.insert r.receiptId r }) :
    Fallible.wp (brce digest operation subjectId grant consequence replayKey) post err False w := by
  unfold brce
  split
  · exact hrefused _
  · next hnone =>
    obtain ⟨g, hg, hmatch⟩ := brceRefusal_eq_none hnone
    rw [Fallible.wp_bind]
    exact wp_store herr fun r hop hsubject => hpost g r hg hmatch ⟨hop, hsubject⟩

/-- What a program does is what an operation may do. -/
def Does (op : CommerceOp) (p : CommerceM (Except Refusal CommerceReceipt)) : Prop :=
  ∀ w, Fallible.wp p (fun r => Wrote w op (.ok r)) (fun e => Wrote w op (.error e)) False w

theorem does_admitAgreement (agreement : CommercialAgreement) :
    Does (.admitAgreement agreement) (Except.map Prod.snd <$> admitAgreement digest agreement) := by
  intro w
  simp only [admitAgreement, Fallible.wp_map, Fallible.wp_bind, Fallible.wp_get]
  split
  · exact .refused _ _
  · next hchecks =>
    simp only [Fallible.wp_bind, Fallible.wp_modify]
    refine wp_store (fun e => ?_) fun r _ _ => ?_
    · exact .admitted hchecks _ (fun _ => Iff.rfl) rfl
    · rw [Fallible.wp_pure]
      refine .admitted hchecks _ (fun id => ?_) rfl
      rw [Table.lookup_insert]
      split_ifs with h
      · subst h
        rcases @AList.lookup String (fun _ => String) _ agreement.agreementId w.agreementStatus <;> simp
      · rfl

theorem does_applyEntitlementEvent (source : String) (event : EntitlementEvent)
    (grant : Option BrokerGrant) :
    Does (.applyEntitlementEvent source event grant)
      (Except.map Prod.snd <$> applyEntitlementEvent digest source event grant) := by
  intro w
  simp only [applyEntitlementEvent, Fallible.wp_map, Fallible.wp_bind, Fallible.wp_get]
  split
  · exact .refused _ _
  · next target htarget =>
    rw [Fallible.wp_bind]
    refine wp_brce (fun e => .raised _ e) (fun refusal => .refused _ _) fun g r hg hmatch hr => ?_
    subst hg
    simp only [Fallible.wp_bind, Fallible.wp_modify, Fallible.wp_pure]
    exact .applied htarget hmatch (AList.lookup_insert _) hr rfl

theorem does_observeUsage (observation : UsageObservation) :
    Does (.observeUsage observation) (Except.ok <$> observeUsage digest observation) := by
  intro w
  simp only [observeUsage, Fallible.wp_map, Fallible.wp_bind, Fallible.wp_modify]
  exact wp_store (fun e => .observed _ _ rfl) fun r _ _ => .observed _ _ rfl

theorem does_admitUsage (observationId : String) :
    Does (.admitUsage observationId) (Except.map Prod.snd <$> admitUsage digest observationId) := by
  intro w
  simp only [admitUsage, Fallible.wp_map, Fallible.wp_bind, Fallible.wp_get]
  refine wp_index (fun e => .raised _ e) fun observation hstored => ?_
  split
  · exact .refused _ _
  · next entitlement _ =>
    split_ifs
    · exact .refused _ _
    · exact .refused _ _
    · rw [Fallible.wp_bind]
      refine wp_index (fun e => .raised _ e) fun agreement _ => ?_
      split_ifs
      · exact .refused _ _
      · simp only [Fallible.wp_bind, Fallible.wp_modify]
        exact wp_store (fun e => .usageAdmitted hstored _ rfl) fun r _ _ =>
          .usageAdmitted hstored _ rfl

theorem eq_of_dedup_eq_singleton {α : Type} [DecidableEq α] {l : List α} {a b : α}
    (h : l.dedup = [a]) (hb : b ∈ l) : b = a :=
  List.mem_singleton.mp (h ▸ List.mem_dedup.mpr hb)

theorem does_constructMeterIntent (intentId : String) (observationIds : List String) :
    Does (.constructMeterIntent intentId observationIds)
      (Except.map Prod.snd <$> constructMeterIntent digest intentId observationIds) := by
  intro w
  simp only [constructMeterIntent, Fallible.wp_map, Fallible.wp_bind, Fallible.wp_get]
  refine wp_indexAll (fun e => .raised _ e) fun observations hstored => ?_
  split_ifs with hchecks
  · exact .refused _ _
  · split
    · next entitlementId dimensionId hentitlement hdimension =>
      rw [Fallible.wp_bind]
      refine wp_index (fun e => .raised _ e) fun entitlement hstoredEntitlement => ?_
      rw [Fallible.wp_bind]
      refine wp_index (fun e => .raised _ e) fun agreement hagreement => ?_
      split
      · exact .refused _ _
      · next price hprice =>
        rw [Fallible.wp_bind]
        refine wp_store (fun e => .raised _ e) fun r _ _ => ?_
        rw [Fallible.wp_bind, Fallible.wp_modify, Fallible.wp_pure]
        refine .constructed _ observations price ?_ ?_ _ rfl
        · rfl
        refine ⟨⟨hstored, fun h => hchecks (Or.inl h), fun o ho => ?_, fun o ho => ?_,
          fun o ho => ?_, entitlement, agreement, hstoredEntitlement, hagreement, hprice⟩, rfl, rfl,
          rfl⟩
        · exact Bool.eq_true_of_not_eq_false fun h => hchecks (Or.inr ⟨o, ho, h⟩)
        · exact eq_of_dedup_eq_singleton hentitlement (List.mem_map_of_mem ho)
        · exact eq_of_dedup_eq_singleton hdimension (List.mem_map_of_mem ho)
    · exact .refused _ _

theorem does_admitExternalAcceptance (acceptance : ExternalAcceptance) :
    Does (.admitExternalAcceptance acceptance)
      (Except.map Prod.snd <$> admitExternalAcceptance digest acceptance) := by
  intro w
  simp only [admitExternalAcceptance, Fallible.wp_map, Fallible.wp_bind, Fallible.wp_get]
  split
  · exact .refused _ _
  · next hchecks =>
    simp only [Fallible.wp_bind, Fallible.wp_modify]
    exact wp_store (fun e => .accepted hchecks _ rfl) fun r _ _ => .accepted hchecks _ rfl

theorem does_reconcile (settlementId acceptanceId : String) :
    Does (.reconcile settlementId acceptanceId)
      (Except.map Prod.snd <$> reconcile digest settlementId acceptanceId) := by
  intro w
  simp only [reconcile, Fallible.wp_map, Fallible.wp_bind, Fallible.wp_get]
  split
  · exact .refused _ _
  · next acceptance hacceptance =>
    rw [Fallible.wp_bind]
    refine wp_index (fun e => .raised _ e) fun intent hintent => ?_
    split_ifs with hquantity
    · exact .refused _ _
    · rw [Fallible.wp_bind]
      refine wp_store (fun e => .raised _ e) fun r _ _ => ?_
      exact .settled hacceptance hintent (not_not.mp hquantity) _ rfl

/-- A change of the agreement, with its receipt. -/
theorem does_changeAgreement {op : CommerceOp} {verb agreementId : String}
    {change : CommercialAgreement → CommercialAgreement} {consequence : ℤ → Payload}
    {grant : Option BrokerGrant}
    (hop : ∀ g current, grant = some g → (verb = "amend" ∧ ∃ pricing offerId,
          op = .amendAgreement agreementId pricing offerId (some g) ∧
            change current = { current with pricing, offerId }) ∨
        (verb = "renew" ∧ ∃ expiresAt, op = .renewAgreement agreementId expiresAt (some g) ∧
          change current = { current with expiresAt := some expiresAt })) :
    Does op (Except.map Prod.snd <$>
      changeAgreement digest verb change consequence agreementId grant) := by
  intro w
  simp only [changeAgreement, Fallible.wp_map, Fallible.wp_bind, Fallible.wp_get]
  split
  · exact .refused _ _
  · next current hcurrent =>
    split_ifs with hlive
    · exact .refused _ _
    · rw [Fallible.wp_bind]
      refine wp_brce (fun e => .raised _ e) (fun refusal => .refused _ _) fun g r hg hmatch hr => ?_
      simp only [Fallible.wp_bind, Fallible.wp_modify, Fallible.wp_pure]
      exact .changed (hop g current hg) hcurrent hlive hmatch _ rfl

theorem does_cancelAgreement (agreementId : String) (grant : Option BrokerGrant) :
    Does (.cancelAgreement agreementId grant) (cancelAgreement digest agreementId grant) := by
  intro w
  simp only [cancelAgreement, Fallible.wp_bind, Fallible.wp_get]
  split_ifs with hnone
  · exact .refused _ _
  · exact .refused _ _
  · rw [Fallible.wp_bind]
    obtain ⟨current, hcurrent⟩ := Option.ne_none_iff_exists'.mp hnone
    refine wp_brce (fun e => .raised _ e) (fun refusal => .refused _ _) fun g r hg hmatch hr => ?_
    simp only [Fallible.wp_bind, Fallible.wp_modify, Fallible.wp_pure]
    exact .cancelled hcurrent _ rfl

/-- The tables after an operation that may add an adjustment of a positive amount. -/
def Aside (w w' : World) : Prop :=
  ∃ adjustments : Table FinancialAdjustment,
    (∀ id a, adjustments.lookup id = some a →
      w.adjustments.lookup id = some a ∨ 0 < a.amountMicros) ∧
    w'.tables = { w.tables with adjustments }

theorem aside_of_tables {w' : World} (h : w'.tables = w.tables) : Aside w w' :=
  ⟨w.adjustments, fun _ _ => Or.inl, h⟩

theorem does_aside {α : Type} {op : CommerceOp} (hop : op.isAside = true)
    {f : α → Except Refusal CommerceReceipt} {p : CommerceM α}
    (h : ∀ w, Fallible.wp p (fun _ => Aside w) (fun _ => Aside w) False w) : Does op (f <$> p) := by
  intro w
  rw [Fallible.wp_map]
  refine Fallible.wp_mono (h w) ?_ ?_
  · rintro _ _ ⟨_, hadjusted, htables⟩
    exact .aside hop _ hadjusted htables
  · rintro _ _ ⟨_, hadjusted, htables⟩
    exact .aside hop _ hadjusted htables

theorem does_admitExternalBlockerEvidence (blocker : ExternalBlocker) (evidenceRef : String)
    (origin : EvidenceOrigin) :
    Does (.admitExternalBlockerEvidence blocker evidenceRef origin)
      (id <$> admitExternalBlockerEvidence digest blocker evidenceRef origin) := by
  refine does_aside rfl fun w => ?_
  unfold admitExternalBlockerEvidence
  split_ifs
  · exact aside_of_tables rfl
  · rw [Fallible.wp_bind, Fallible.wp_modify, Fallible.wp_bind]
    exact wp_store (fun _ => aside_of_tables rfl) fun _ _ _ => aside_of_tables rfl

theorem does_bindIdentity (bindingId accountId tenantId issuer subject : String) :
    Does (.bindIdentity bindingId accountId tenantId issuer subject) (Except.map Prod.snd <$>
      bindIdentity digest bindingId accountId tenantId issuer subject) := by
  refine does_aside rfl fun w => ?_
  rw [bindIdentity, Fallible.wp_bind, Fallible.wp_get]
  split_ifs
  · exact aside_of_tables rfl
  · exact aside_of_tables rfl
  · rw [Fallible.wp_bind]
    exact wp_store (fun _ => aside_of_tables rfl) fun _ _ _ => aside_of_tables rfl

theorem wp_constructAdjustment (kind adjustmentId agreementId : String) (amountMicros : ℤ)
    (reason : String) :
    Fallible.wp (constructAdjustment digest kind adjustmentId agreementId amountMicros reason)
      (fun _ => Aside w) (fun _ => Aside w) False w := by
  rw [constructAdjustment, Fallible.wp_bind, Fallible.wp_get]
  split_ifs with hstored hamount
  · exact aside_of_tables rfl
  · exact aside_of_tables rfl
  · rw [Fallible.wp_bind]
    refine wp_store (fun _ => aside_of_tables rfl) fun r _ _ => ⟨_, fun id a ha => ?_, rfl⟩
    rw [Table.lookup_insert] at ha
    split_ifs at ha
    · obtain rfl := Option.some.inj ha
      exact Or.inr (not_le.mp hamount)
    · exact Or.inl ha

theorem does_projectSupport (entitlementId : String) :
    Does (.projectSupport entitlementId)
      (Except.map Prod.snd <$> projectSupport digest entitlementId) := by
  refine does_aside rfl fun w => ?_
  rw [projectSupport, Fallible.wp_bind, Fallible.wp_get]
  split
  · exact aside_of_tables rfl
  · dsimp only
    split_ifs
    · exact aside_of_tables rfl
    · rw [Fallible.wp_bind]
      exact wp_store (fun _ => aside_of_tables rfl) fun _ _ _ => aside_of_tables rfl

theorem does_admitPackaging (evidence : PackagingEvidence) :
    Does (.admitPackaging evidence) (Except.map Prod.snd <$> admitPackaging digest evidence) := by
  refine does_aside rfl fun w => ?_
  unfold admitPackaging
  split_ifs
  · exact aside_of_tables rfl
  · rw [Fallible.wp_bind]
    exact wp_store (fun _ => aside_of_tables rfl) fun _ _ _ => aside_of_tables rfl

variable (digest)

theorem does_program (op : CommerceOp) : Does op (op.program digest) := by
  cases op with
  | admitAgreement agreement => exact does_admitAgreement agreement
  | applyEntitlementEvent source event grant => exact does_applyEntitlementEvent source event grant
  | observeUsage observation => exact does_observeUsage observation
  | admitUsage observationId => exact does_admitUsage observationId
  | constructMeterIntent intentId ids => exact does_constructMeterIntent intentId ids
  | admitExternalAcceptance acceptance => exact does_admitExternalAcceptance acceptance
  | reconcile settlementId acceptanceId => exact does_reconcile settlementId acceptanceId
  | admitExternalBlockerEvidence blocker evidenceRef origin =>
    have hdoes : Does (.admitExternalBlockerEvidence blocker evidenceRef origin)
        (id <$> admitExternalBlockerEvidence digest blocker evidenceRef origin) :=
      does_admitExternalBlockerEvidence blocker evidenceRef origin
    rwa [id_map] at hdoes
  | bindIdentity b a t i s => exact does_bindIdentity b a t i s
  | amendAgreement agreementId pricing offerId grant =>
    refine does_changeAgreement fun g current hg => Or.inl ⟨rfl, pricing, offerId, ?_, rfl⟩
    rw [hg]
  | renewAgreement agreementId expiresAt grant =>
    refine does_changeAgreement fun g current hg => Or.inr ⟨rfl, expiresAt, ?_, rfl⟩
    rw [hg]
  | cancelAgreement agreementId grant => exact does_cancelAgreement agreementId grant
  | constructCredit id a m r => exact does_aside rfl fun w => wp_constructAdjustment _ id a m r
  | constructRefund id a m r => exact does_aside rfl fun w => wp_constructAdjustment _ id a m r
  | projectSupport entitlementId => exact does_projectSupport entitlementId
  | admitPackaging evidence => exact does_admitPackaging evidence

/-- Every call ends, and does what its operation may do. -/
theorem step_wrote (w : World) (op : CommerceOp) :
    Wrote w op (step digest w op).1 (step digest w op).2 := by
  have h := does_program digest op w
  unfold Fallible.wp at h
  unfold step
  split at h
  · exact h.elim
  · next a w' hrun => rw [hrun]; exact h
  · next e w' hrun => rw [hrun]; exact h

theorem wrote_taken (ops : List CommerceOp) (op : CommerceOp) :
    Wrote (taken digest ops op).before (taken digest ops op).op (taken digest ops op).reply
      (taken digest ops op).after := by
  simpa only [taken, run_snoc] using step_wrote digest (run digest ops) op

theorem wrote_of_mem_trace {ops : List CommerceOp} {t : Taken} (ht : t ∈ trace digest ops) :
    Wrote t.before t.op t.reply t.after := by
  induction ops using List.reverseRecOn with
  | nil => cases ht
  | append_singleton ops op ih =>
    rw [trace_snoc] at ht
    rcases List.mem_append.mp ht with ht | ht
    · exact ih ht
    · obtain rfl := List.mem_singleton.mp ht
      exact wrote_taken digest ops op

/-- What every call keeps holds in every run from the empty world. -/
theorem run_induction {P : World → Prop} (hstart : P {})
    (hstep : ∀ w op reply w', P w → Wrote w op reply w' → P w') (ops : List CommerceOp) :
    P (run digest ops) := by
  induction ops using List.reverseRecOn with
  | nil => exact hstart
  | append_singleton ops op ih =>
    rw [run_snoc]
    exact hstep _ op _ _ ih (step_wrote digest _ op)

/-- What every call keeps that meets a condition holds in every run of such calls. -/
theorem run_induction_of {P : World → Prop} {C : World → CommerceOp → Prop} (hstart : P {})
    (hstep : ∀ w op reply w', P w → C w op → Wrote w op reply w' → P w') (ops : List CommerceOp)
    (h : ∀ t ∈ trace digest ops, C t.before t.op) : P (run digest ops) := by
  induction ops using List.reverseRecOn with
  | nil => exact hstart
  | append_singleton ops op ih =>
    rw [trace_snoc] at h
    rw [run_snoc]
    have hlast := h _ (List.mem_append_right _ (List.mem_singleton_self _))
    exact hstep _ op _ _ (ih fun t ht => h t (List.mem_append_left _ ht)) hlast
      (step_wrote digest _ op)

end Operations

end Commerce

end GymAct
