import GymAct.GraphUnion
import GymAct.SortedKeys

/-!
# Objects and morphisms read from a document

`model_validate` of the models of `combinatorial.py`, on documents that list every field as a dump
does. What was written with sorted keys is read back as it was, but for the order of the keys
of its attributes (`PossibilityObject.modelValidate_sortKeys`,
`PossibilityMorphism.modelValidate_sortKeys`).
-/

namespace GymAct

def PossibilityObjectKind.ofValue (s : String) : Option PossibilityObjectKind :=
  [observation, admittedObservation, subject, capability, action, plan, provider, planner, verifier,
    policy, controller, process, receipt].find? (·.value == s)

@[simp] theorem PossibilityObjectKind.ofValue_value (k : PossibilityObjectKind) :
    ofValue k.value = some k := by
  cases k <;> decide

def MorphismKind.ofValue (s : String) : Option MorphismKind :=
  [observe, admits, enable, realize, plan, project, manufacture, verify, compensate, reverse, actuate,
    replay, reuse].find? (·.value == s)

@[simp] theorem MorphismKind.ofValue_value (k : MorphismKind) : ofValue k.value = some k := by
  cases k <;> decide

def DecisionPhase.ofValue (s : String) : Option DecisionPhase :=
  [select, construct, .do].find? (·.value == s)

@[simp] theorem DecisionPhase.ofValue_value (p : DecisionPhase) : ofValue p.value = some p := by
  cases p <;> decide

def ReversalClass.ofValue (s : String) : Option ReversalClass :=
  [reversible, compensatable, irreversible, unknown].find? (·.value == s)

@[simp] theorem ReversalClass.ofValue_value (r : ReversalClass) : ofValue r.value = some r := by
  cases r <;> decide

namespace Value

def readBool : Value → Option Bool
  | .bool b => some b
  | _ => none

/-- A number as a finite float. -/
def readFinite (v : Value) : Option ℚ :=
  match v.number with
  | some (.finite q) => some q
  | _ => none

def readNat : Value → Option ℕ
  | .int n => if 0 ≤ n then some n.toNat else none
  | _ => none

end Value

def PossibilityObject.fieldNames : List String :=
  ["object_id", "kind", "semantic_ref", "revision", "ontology_refs", "standing", "evidence_refs",
    "attributes"]

/-- `PossibilityObject.model_validate` of a document that lists every field, as a dump does. -/
def PossibilityObject.modelValidate : Value → Option PossibilityObject
  | .dict items => do
    if items.all (fun e => e.1 ∈ fieldNames) = false then failure
    let objectId ← (← items.lookup "object_id").readStr
    let kind ← PossibilityObjectKind.ofValue (← (← items.lookup "kind").readStr)
    let semanticRef ← (← items.lookup "semantic_ref").readStr
    let revision ← (← items.lookup "revision").readOption
    let ontologyRefs ← (← items.lookup "ontology_refs").readList Value.readStr
    let standing ← Standing.ofValue (← (← items.lookup "standing").readStr)
    let evidenceRefs ← (← items.lookup "evidence_refs").readList Value.readStr
    let attributes ← (← items.lookup "attributes").readDict
    if h : objectId ≠ "" ∧ semanticRef ≠ "" ∧ carriesAuthority (.dict attributes) = false then
      pure
        { objectId, kind, semanticRef, revision, ontologyRefs, standing, evidenceRefs, attributes,
          objectId_ne := h.1, semanticRef_ne := h.2.1, powerless := h.2.2 }
    else failure
  | _ => none

/-- `ObjectiveVector.model_validate` : any number is read as a float. -/
def ObjectiveVector.modelValidate : Value → Option ObjectiveVector
  | .dict items => do
    if items.all (fun e => e.1 ∈ ["monetary_cost", "wall_time_s", "compute_units",
      "human_interventions", "risk_score", "verification_confidence", "expected_value"]) = false then
      failure
    let monetaryCost ← (← items.lookup "monetary_cost").readFinite
    let wallTimeS ← (← items.lookup "wall_time_s").readFinite
    let computeUnits ← (← items.lookup "compute_units").readFinite
    let humanInterventions ← (← items.lookup "human_interventions").readFinite
    let riskScore ← (← items.lookup "risk_score").readFinite
    let verificationConfidence ← (← items.lookup "verification_confidence").readNat
    let expectedValue ← (← items.lookup "expected_value").readFinite
    if h : (0 ≤ monetaryCost ∧ 0 ≤ wallTimeS ∧ 0 ≤ computeUnits ∧ 0 ≤ humanInterventions ∧
        0 ≤ riskScore) ∧ verificationConfidence ≤ 4 then
      pure
        { monetaryCost, wallTimeS, computeUnits, humanInterventions, riskScore,
          verificationConfidence, expectedValue, monetaryCost_nonneg := h.1.1,
          wallTimeS_nonneg := h.1.2.1, computeUnits_nonneg := h.1.2.2.1,
          humanInterventions_nonneg := h.1.2.2.2.1, riskScore_nonneg := h.1.2.2.2.2,
          verificationConfidence_le := h.2 }
    else failure
  | _ => none

def MorphismRequirements.modelValidate : Value → Option MorphismRequirements
  | .dict items => do
    if items.all (fun e => e.1 ∈ ["capability_refs", "policy_refs", "evidence_refs",
      "required_revision", "execution_grant_required"]) = false then failure
    let capabilityRefs ← (← items.lookup "capability_refs").readList Value.readStr
    let policyRefs ← (← items.lookup "policy_refs").readList Value.readStr
    let evidenceRefs ← (← items.lookup "evidence_refs").readList Value.readStr
    let requiredRevision ← (← items.lookup "required_revision").readOption
    let executionGrantRequired ← (← items.lookup "execution_grant_required").readBool
    pure { capabilityRefs, policyRefs, evidenceRefs, requiredRevision, executionGrantRequired }
  | _ => none

def PossibilityMorphism.fieldNames : List String :=
  ["morphism_id", "source_id", "target_id", "kind", "phase", "reversal", "requirements",
    "objectives", "standing", "evidence_refs", "attributes"]

/-- `PossibilityMorphism.model_validate` of a document that lists every field. -/
def PossibilityMorphism.modelValidate : Value → Option PossibilityMorphism
  | .dict items => do
    if items.all (fun e => e.1 ∈ fieldNames) = false then failure
    let morphismId ← (← items.lookup "morphism_id").readStr
    let sourceId ← (← items.lookup "source_id").readStr
    let targetId ← (← items.lookup "target_id").readStr
    let kind ← MorphismKind.ofValue (← (← items.lookup "kind").readStr)
    let phase ← DecisionPhase.ofValue (← (← items.lookup "phase").readStr)
    let reversal ← ReversalClass.ofValue (← (← items.lookup "reversal").readStr)
    let requirements ← MorphismRequirements.modelValidate (← items.lookup "requirements")
    let objectives ← ObjectiveVector.modelValidate (← items.lookup "objectives")
    let standing ← Standing.ofValue (← (← items.lookup "standing").readStr)
    let evidenceRefs ← (← items.lookup "evidence_refs").readList Value.readStr
    let attributes ← (← items.lookup "attributes").readDict
    if h : (morphismId ≠ "" ∧ sourceId ≠ "" ∧ targetId ≠ "") ∧
        carriesAuthority (.dict attributes) = false ∧ (kind = .actuate → phase = .do) ∧
          (phase = .do ↔ requirements.executionGrantRequired = true) then
      pure
        { morphismId, sourceId, targetId, kind, phase, reversal, requirements, objectives, standing,
          evidenceRefs, attributes, morphismId_ne := h.1.1, sourceId_ne := h.1.2.1,
          targetId_ne := h.1.2.2, powerless := h.2.1, actuation := h.2.2.1,
          grantRequired := h.2.2.2 }
    else failure
  | _ => none

/-! ### What is read from a dump -/

/-- Sorting keys hides no authority. -/
theorem carriesAuthorityItems_iff (items : Payload) :
    carriesAuthorityItems items = items.any fun e =>
      forbiddenAuthorityKeys.contains e.1.toLower || carriesAuthority e.2 := by
  induction items with
  | nil => simp [carriesAuthorityItems]
  | cons e items ih =>
    obtain ⟨k, v⟩ := e
    simp [carriesAuthorityItems, ih]

open Value in
mutual

theorem carriesAuthority_sortKeys : ∀ v : Value, carriesAuthority v.sortKeys = carriesAuthority v
  | .null | .bool _ | .int _ | .float _ | .str _ => by simp
  | .list items => by
    rw [sortKeys, carriesAuthority, carriesAuthority, carriesAuthorityList_sortKeysList items]
  | .dict items => by
    rw [sortKeys_dict, carriesAuthority, carriesAuthority, carriesAuthorityItems_iff,
      (Payload.sorted_perm _).any_eq, ← carriesAuthorityItems_iff,
      carriesAuthorityItems_sortKeysItems items]

theorem carriesAuthorityList_sortKeysList : ∀ items : List Value,
    carriesAuthorityList (sortKeysList items) = carriesAuthorityList items
  | [] => by simp [sortKeysList]
  | v :: vs => by
    rw [sortKeysList, carriesAuthorityList, carriesAuthorityList, carriesAuthority_sortKeys v,
      carriesAuthorityList_sortKeysList vs]

theorem carriesAuthorityItems_sortKeysItems : ∀ items : Payload,
    carriesAuthorityItems (sortKeysItems items) = carriesAuthorityItems items
  | [] => by simp [sortKeysItems]
  | (k, v) :: vs => by
    rw [sortKeysItems, carriesAuthorityItems, carriesAuthorityItems, carriesAuthority_sortKeys v,
      carriesAuthorityItems_sortKeysItems vs]

end

/-- Attributes as they are read back. -/
def rereadAttributes (attributes : Payload) : Payload :=
  Payload.sorted (Value.sortKeysItems attributes)

theorem carriesAuthority_reread (attributes : Payload) :
    carriesAuthority (.dict (rereadAttributes attributes)) = carriesAuthority (.dict attributes) := by
  rw [← carriesAuthority_sortKeys (.dict attributes), Value.sortKeys_dict]
  rfl

def PossibilityObject.reread (o : PossibilityObject) : PossibilityObject :=
  { o with
    attributes := rereadAttributes o.attributes
    powerless := (carriesAuthority_reread _).trans o.powerless }

def PossibilityMorphism.reread (m : PossibilityMorphism) : PossibilityMorphism :=
  { m with
    attributes := rereadAttributes m.attributes
    powerless := (carriesAuthority_reread _).trans m.powerless }

theorem all_sorted (items : Payload) (names : List String) :
    ((Payload.sorted (Value.sortKeysItems items)).all fun e => e.1 ∈ names) =
      items.all fun e => e.1 ∈ names := by
  rw [(Payload.sorted_perm _).all_eq, Value.sortKeysItems_eq, List.all_map]
  rfl

theorem PossibilityObject.modelValidate_sortKeys (o : PossibilityObject) :
    modelValidate o.modelDump.sortKeys = some o.reread := by
  have hpowerless := (carriesAuthority_reread o.attributes).trans o.powerless
  rw [modelDump, Value.sortKeys_dict, modelValidate]
  simp (disch := simp) only [all_sorted, Value.lookup_sorted]
  simp [fieldNames, List.lookup_cons, List.lookup_nil, Value.readStr, Value.readDict, Value.sortKeys_dict,
    o.objectId_ne, o.semanticRef_ne, rereadAttributes] at hpowerless ⊢
  simp [hpowerless, reread, rereadAttributes]

theorem ObjectiveVector.modelValidate_sortKeys (o : ObjectiveVector) :
    modelValidate o.modelDump.sortKeys = some o := by
  rw [modelDump, Value.sortKeys_dict, modelValidate]
  simp (disch := simp) only [all_sorted, Value.lookup_sorted]
  simp [List.lookup_cons, List.lookup_nil, Value.readFinite, Value.number, Value.readNat, o.monetaryCost_nonneg,
    o.wallTimeS_nonneg, o.computeUnits_nonneg, o.humanInterventions_nonneg, o.riskScore_nonneg,
    o.verificationConfidence_le]

theorem MorphismRequirements.modelValidate_sortKeys (r : MorphismRequirements) :
    modelValidate r.modelDump.sortKeys = some r := by
  rw [modelDump, Value.sortKeys_dict, modelValidate]
  simp (disch := simp) only [all_sorted, Value.lookup_sorted]
  simp [List.lookup_cons, List.lookup_nil, Value.readBool]

theorem PossibilityMorphism.modelValidate_sortKeys (m : PossibilityMorphism) :
    modelValidate m.modelDump.sortKeys = some m.reread := by
  have hpowerless := (carriesAuthority_reread m.attributes).trans m.powerless
  have hactuation := m.actuation
  have hgrant := m.grantRequired
  rw [modelDump, Value.sortKeys_dict, modelValidate]
  simp (disch := simp) only [all_sorted, Value.lookup_sorted]
  simp [fieldNames, List.lookup_cons, List.lookup_nil, Value.readStr, Value.readDict, Value.sortKeys_dict,
    m.morphismId_ne, m.sourceId_ne, m.targetId_ne, rereadAttributes,
    MorphismRequirements.modelValidate_sortKeys,
    ObjectiveVector.modelValidate_sortKeys] at hpowerless ⊢
  simpa [hpowerless, hgrant, reread, rereadAttributes] using fun h => hgrant.mp (hactuation h)

end GymAct
