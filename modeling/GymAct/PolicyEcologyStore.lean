import GymAct.Fallible
import GymAct.PolicyEcology

/-!
# The store of policy populations

`policy_ecology_store.py`. A canonical text is kept as the document that `json.loads` reads from it
(`Value.reparse`), and rows are kept as they were inserted. A `ValidationError` is named by its
model.

`stored_transitions_replay` : after any calls, closing and reopening the file included, every stored
population is got back, every stored transition replays, the store verifies, and a call repeated
changes nothing.
-/

namespace GymAct.Ecology

open Fallible (bind_eq_ok)

variable {P : PyLib}

/-! ## Dumps -/

def PopulationKind.value : PopulationKind → String
  | homogeneous => "homogeneous"
  | incidental => "incidental"
  | engineered => "engineered"
  | adaptive => "adaptive"

/-- Pairs of an axis and a number. -/
def pairsValue (pairs : List (String × PyFloat)) : Value :=
  .list (pairs.map fun e => .list [.str e.1, .float e.2])

def ConditionAxis.modelDump (a : ConditionAxis P) : Value :=
  .dict [("axis_id", .str a.axisId), ("lower", .float a.lower), ("upper", .float a.upper),
    ("provenance_refs", .ofStrings a.provenanceRefs)]

def StrategicCondition.modelDump (c : StrategicCondition P) : Value :=
  .dict [("values", pairsValue c.values)]

def ReactionNorm.modelDump (norm : ReactionNorm P) : Value :=
  .dict [("slopes", pairsValue norm.slopes), ("reference_cue", .float norm.referenceCue)]

def PolicyPhenotype.modelDump (p : PolicyPhenotype P) : Value :=
  .dict [("policy_ref", .str p.policyRef), ("condition", p.condition.modelDump),
    ("evidence_refs", .ofStrings p.evidenceRefs)]

def WeightedPhenotype.modelDump (m : WeightedPhenotype P) : Value :=
  .dict [("phenotype", m.phenotype.modelDump), ("weight", .float m.weight)]

/-- `reaction_norm`, dumped. -/
def normValue : Option (ReactionNorm P) → Value
  | none => .null
  | some norm => norm.modelDump

def PolicyPopulation.modelDump (p : PolicyPopulation P) : Value :=
  .dict [("kind", .str p.kind.value), ("members", .list (p.members.map WeightedPhenotype.modelDump)),
    ("reaction_norm", normValue p.reactionNorm)]

/-! ## What is read back -/

/-- The kind of a value. -/
def PopulationKind.ofValue (s : String) : Option PopulationKind :=
  [homogeneous, incidental, engineered, adaptive].find? (·.value == s)

@[simp]
theorem PopulationKind.ofValue_value (k : PopulationKind) : ofValue k.value = some k := by
  cases k <;> decide

/-- `tuple[str, float]`. -/
def readPair : Value → Option (String × PyFloat)
  | .list [key, value] => do return (← key.readStr, ← value.number)
  | _ => none

/-- The fields of a document that lists these and no others. -/
def readFields (names : List String) : Value → Option Payload
  | .dict items => if items.all fun e => e.1 ∈ names then some items else none
  | _ => none

variable (P) in
/-- `ConditionAxis.model_validate`, of a document that lists every field. -/
def ConditionAxis.modelValidate (v : Value) : Option (ConditionAxis P) := do
  let items ← readFields ["axis_id", "lower", "upper", "provenance_refs"] v
  let axisId ← (← items.lookup "axis_id").readStr
  let lower ← (← items.lookup "lower").number
  let upper ← (← items.lookup "upper").number
  let provenanceRefs ← (← items.lookup "provenance_refs").readList Value.readStr
  (ConditionAxis.construct P axisId lower upper provenanceRefs).toOption

variable (P) in
def StrategicCondition.modelValidate (v : Value) : Option (StrategicCondition P) := do
  let items ← readFields ["values"] v
  let values ← (← items.lookup "values").readList readPair
  (StrategicCondition.construct P values).toOption

variable (P) in
def ReactionNorm.modelValidate (v : Value) : Option (ReactionNorm P) := do
  let items ← readFields ["slopes", "reference_cue"] v
  let slopes ← (← items.lookup "slopes").readList readPair
  let referenceCue ← (← items.lookup "reference_cue").number
  (ReactionNorm.construct P slopes referenceCue).toOption

variable (P) in
def PolicyPhenotype.modelValidate (v : Value) : Option (PolicyPhenotype P) := do
  let items ← readFields ["policy_ref", "condition", "evidence_refs"] v
  let policyRef ← (← items.lookup "policy_ref").readStr
  let condition ← StrategicCondition.modelValidate P (← items.lookup "condition")
  let evidenceRefs ← (← items.lookup "evidence_refs").readList Value.readStr
  (PolicyPhenotype.construct policyRef condition evidenceRefs).toOption

variable (P) in
def WeightedPhenotype.modelValidate (v : Value) : Option (WeightedPhenotype P) := do
  let items ← readFields ["phenotype", "weight"] v
  let phenotype ← PolicyPhenotype.modelValidate P (← items.lookup "phenotype")
  let weight ← (← items.lookup "weight").number
  (WeightedPhenotype.construct phenotype weight).toOption

variable (P) in
/-- `ReactionNorm | None`. -/
def readNorm : Value → Option (Option (ReactionNorm P))
  | .null => some none
  | v => (ReactionNorm.modelValidate P v).map some

variable (P) in
def PolicyPopulation.modelValidate (v : Value) : Option (PolicyPopulation P) := do
  let items ← readFields ["kind", "members", "reaction_norm"] v
  let kind ← PopulationKind.ofValue (← (← items.lookup "kind").readStr)
  let members ← (← items.lookup "members").readList (WeightedPhenotype.modelValidate P)
  let reactionNorm ← readNorm P (← items.lookup "reaction_norm")
  (PolicyPopulation.construct kind members reactionNorm).toOption

theorem readList_pairsValue (pairs : List (String × PyFloat)) :
    (pairsValue pairs).reparse.readList readPair = some pairs := by
  have h : Value.readList readPair (.list (pairs.map (Value.reparse ∘ fun e =>
      .list [.str e.1, .float e.2]))) = some (pairs.map id) :=
    Value.readList_map (fun e => by simp [Value.reparse_list, readPair, Value.readStr]) pairs
  rwa [List.map_id, ← List.map_map, ← Value.reparse_list] at h

theorem ConditionAxis.modelValidate_reparse (a : ConditionAxis P) :
    modelValidate P a.modelDump.reparse = some a := by
  simp [modelDump, modelValidate, readFields, List.lookup_cons, List.lookup_nil, Value.readStr, construct_axisId,
    Except.toOption]

theorem StrategicCondition.modelValidate_reparse (c : StrategicCondition P) :
    modelValidate P c.modelDump.reparse = some c := by
  simp [modelDump, modelValidate, readFields, List.lookup_cons, List.lookup_nil, readList_pairsValue, construct_values,
    Except.toOption]

theorem ReactionNorm.modelValidate_reparse (norm : ReactionNorm P) :
    modelValidate P norm.modelDump.reparse = some norm := by
  simp [modelDump, modelValidate, readFields, List.lookup_cons, List.lookup_nil, readList_pairsValue, construct_slopes,
    Except.toOption]

theorem PolicyPhenotype.modelValidate_reparse (p : PolicyPhenotype P) :
    modelValidate P p.modelDump.reparse = some p := by
  have hcondition := p.condition.modelValidate_reparse
  simp [modelDump, modelValidate, readFields, List.lookup_cons, List.lookup_nil, Value.readStr, hcondition, construct,
    p.policyRef_ne, Except.toOption]

theorem WeightedPhenotype.modelValidate_reparse (m : WeightedPhenotype P) :
    modelValidate P m.modelDump.reparse = some m := by
  have hphenotype := m.phenotype.modelValidate_reparse
  simp [modelDump, modelValidate, readFields, List.lookup_cons, List.lookup_nil, hphenotype, construct, m.finite,
    m.positive, Except.toOption]

theorem readNorm_reparse (norm : Option (ReactionNorm P)) :
    readNorm P (normValue norm).reparse = some norm := by
  cases norm with
  | none => simp [normValue, readNorm]
  | some norm =>
    have h := norm.modelValidate_reparse
    simp only [normValue, ReactionNorm.modelDump, Value.reparse_dict] at h ⊢
    rw [readNorm, h]
    · rfl
    · nofun

/-- A population is read back as it was dumped. -/
theorem PolicyPopulation.modelValidate_reparse (p : PolicyPopulation P) :
    modelValidate P p.modelDump.reparse = some p := by
  have hmembers : Value.readList (WeightedPhenotype.modelValidate P) (.list (p.members.map
      (Value.reparse ∘ WeightedPhenotype.modelDump))) = some (p.members.map id) :=
    Value.readList_map WeightedPhenotype.modelValidate_reparse _
  rw [List.map_id] at hmembers
  have hnorm := readNorm_reparse p.reactionNorm
  simp [modelDump, modelValidate, readFields, List.lookup_cons, List.lookup_nil, Value.readStr, Value.reparse_list,
    hmembers, hnorm, construct_members, Except.toOption]

/-- Populations with one document are one. -/
theorem PolicyPopulation.eq_of_reparse {p q : PolicyPopulation P}
    (h : p.modelDump.reparse = q.modelDump.reparse) : p = q := by
  have hp := p.modelValidate_reparse
  rw [h, q.modelValidate_reparse] at hp
  exact (Option.some.inj hp).symm

/-- The list of axes of a transition. -/
def axesValue (axes : List (ConditionAxis P)) : Value := .list (axes.map ConditionAxis.modelDump)

theorem readList_axesValue (axes : List (ConditionAxis P)) :
    (axesValue axes).reparse.readList (ConditionAxis.modelValidate P) = some axes := by
  have h : Value.readList (ConditionAxis.modelValidate P) (.list (axes.map
      (Value.reparse ∘ ConditionAxis.modelDump))) = some (axes.map id) :=
    Value.readList_map ConditionAxis.modelValidate_reparse _
  rwa [List.map_id, ← List.map_map, ← Value.reparse_list] at h

/-! ## The store -/

/-- `PopulationRecord`, and a row of `policy_populations`. -/
structure PopulationRecord where
  populationDigest : String
  canonicalJson : Value
  deriving DecidableEq

/-- `PopulationTransitionRecord`. -/
structure PopulationTransitionRecord (P : PyLib) where
  transitionDigest : String
  parentDigest : String
  childDigest : String
  cue : PyFloat
  axes : List (ConditionAxis P)
  named : transitionDigest ≠ "" ∧ parentDigest ≠ "" ∧ childDigest ≠ "" ∧ axes ≠ []
  distinct : isBlank transitionDigest = false
  deriving DecidableEq

/-- A row of `policy_population_transitions`. -/
structure TransitionRow where
  transitionDigest : String
  parentDigest : String
  childDigest : String
  cue : PyFloat
  axesJson : Value
  deriving DecidableEq

/-- The tables, in the order of insertion. -/
structure PolicyEcologyStore where
  populations : List PopulationRecord := []
  transitions : List TransitionRow := []

def PopulationTransitionRecord.construct (transitionDigest parentDigest childDigest : String)
    (cue : PyFloat) (axes : List (ConditionAxis P)) :
    Except PyError (PopulationTransitionRecord P) :=
  if hnamed : transitionDigest ≠ "" ∧ parentDigest ≠ "" ∧ childDigest ≠ "" ∧ axes ≠ [] then
    if hblank : isBlank transitionDigest = false then
      .ok ⟨transitionDigest, parentDigest, childDigest, cue, axes, hnamed, hblank⟩
    else .error (validationError ⟨"ValueError", "REFUSED:EMPTY_POPULATION_TRANSITION_DIGEST"⟩)
  else invalid "PopulationTransitionRecord"

variable (C : Canon)

/-- `population_digest`. -/
def populationDigest (population : PolicyPopulation P) : Except PyError String :=
  C.digest population.modelDump

/-- `population_record`. -/
def populationRecord (population : PolicyPopulation P) : Except PyError PopulationRecord := do
  let digest ← C.digest population.modelDump
  let text ← C.canonicalBytes population.modelDump
  if digest = "" ∨ text = [] then invalid "PopulationRecord"
  else return ⟨digest, population.modelDump.reparse⟩

/-- `transition_digest`. -/
def transitionDigest (parentDigest childDigest : String) (cue : PyFloat)
    (axes : List (ConditionAxis P)) : Except PyError String :=
  C.digest (.dict [("parent_digest", .str parentDigest), ("child_digest", .str childDigest),
    ("cue", .float cue), ("axes", axesValue axes)])

namespace PolicyEcologyStore

/-- `put`. -/
def put (db : PolicyEcologyStore) (population : PolicyPopulation P) :
    Except PyError (PopulationRecord × PolicyEcologyStore) := do
  let record ← populationRecord C population
  match db.populations.find? (·.populationDigest = record.populationDigest) with
  | some existing =>
    if existing.canonicalJson ≠ record.canonicalJson then
      refused "POLICY_POPULATION_DIGEST_CONFLICT"
    else return (record, db)
  | none => return (record, { db with populations := db.populations ++ [record] })

variable (P) in
/-- `get`. -/
def get (db : PolicyEcologyStore) (digest : String) : Except PyError (Option (PolicyPopulation P)) :=
  match db.populations.find? (·.populationDigest = digest) with
  | none => .ok none
  | some row =>
    match PolicyPopulation.modelValidate P row.canonicalJson with
    | none => invalid "PolicyPopulation"
    | some population => do
      if (← populationDigest C population) ≠ digest then
        refused "STORED_POLICY_POPULATION_DIGEST_MISMATCH"
      else return some population

/-- The first half of `condition` : the child of a stored parent. -/
def childOf (db : PolicyEcologyStore) (parentDigest : String) (cue : PyFloat)
    (axes : List (ConditionAxis P)) : Except PyError (PolicyPopulation P) := do
  match ← db.get P C parentDigest with
  | none => refused "POLICY_POPULATION_PARENT_NOT_FOUND"
  | some parent => conditionPopulation parent cue axes

/-- The second half of `condition` : the transition to a child that was put. -/
def link (db : PolicyEcologyStore) (parentDigest childDigest : String) (cue : PyFloat)
    (axes : List (ConditionAxis P)) :
    Except PyError (PopulationTransitionRecord P × PolicyEcologyStore) := do
  let transitionId ← transitionDigest C parentDigest childDigest cue axes
  let record ←
    PopulationTransitionRecord.construct transitionId parentDigest childDigest cue axes
  let _ ← C.canonicalBytes (axesValue axes)
  let expected : TransitionRow :=
    ⟨transitionId, parentDigest, childDigest, cue, (axesValue axes).reparse⟩
  match db.transitions.find? (·.transitionDigest = transitionId) with
  | some existing =>
    if existing ≠ expected then refused "POLICY_POPULATION_TRANSITION_CONFLICT"
    else return (record, db)
  | none =>
    -- the foreign keys
    if [parentDigest, childDigest].all (· ∈ db.populations.map PopulationRecord.populationDigest) then
      return (record, { db with transitions := db.transitions ++ [expected] })
    else .error ⟨"IntegrityError", "FOREIGN KEY constraint failed"⟩

/-- `condition`. A child that was put stays when the transition is refused. -/
def condition (db : PolicyEcologyStore) (parentDigest : String) (cue : PyFloat)
    (axes : List (ConditionAxis P)) :
    Except PyError (PopulationTransitionRecord P) × PolicyEcologyStore :=
  match db.childOf C parentDigest cue axes >>= db.put C with
  | .error e => (.error e, db)
  | .ok (childRecord, db') =>
    match db'.link C parentDigest childRecord.populationDigest cue axes with
    | .error e => (.error e, db')
    | .ok (record, db'') => (.ok record, db'')

variable (P) in
/-- `transition`. -/
def transition (db : PolicyEcologyStore) (digest : String) :
    Except PyError (Option (PopulationTransitionRecord P)) :=
  match db.transitions.find? (·.transitionDigest = digest) with
  | none => .ok none
  | some row =>
    match row.axesJson.readList (ConditionAxis.modelValidate P) with
    | none => invalid "ConditionAxis"
    | some axes => do
      return some (← PopulationTransitionRecord.construct digest row.parentDigest row.childDigest
        row.cue axes)

variable (P) in
/-- `replay`. -/
def replay (db : PolicyEcologyStore) (digest : String) : Except PyError Bool := do
  match ← db.transition P digest with
  | none => refused "POLICY_POPULATION_TRANSITION_NOT_FOUND"
  | some transition =>
    match ← db.get P C transition.parentDigest, ← db.get P C transition.childDigest with
    | some parent, some child =>
      let replayed ← conditionPopulation parent transition.cue transition.axes
      if (← populationDigest C replayed) ≠ transition.childDigest then return false
      else if replayed ≠ child then return false
      else
        let digest ← Ecology.transitionDigest C transition.parentDigest transition.childDigest
          transition.cue transition.axes
        return digest = transition.transitionDigest
    | _, _ => return false

variable (P) in
/-- The body of the loop of `verify` over the populations. -/
def verifyPopulation (row : PopulationRecord) : Except PyError Bool :=
  match PolicyPopulation.modelValidate P row.canonicalJson with
  | none => .ok false
  | some population => do
    if (← populationDigest C population) ≠ row.populationDigest then return false
    else
      let _ ← C.canonicalBytes population.modelDump
      return population.modelDump.reparse = row.canonicalJson

variable (P) in
/-- `verify`. -/
def verify (db : PolicyEcologyStore) : Except PyError Bool := do
  let populations := db.populations.insertionSort fun a b => a.populationDigest ≤ b.populationDigest
  let transitions := db.transitions.insertionSort fun a b => a.transitionDigest ≤ b.transitionDigest
  if ← populations.allM (verifyPopulation P C) then
    transitions.allM fun row => db.replay P C row.transitionDigest
  else return false

end PolicyEcologyStore

/-! ## Runs -/

/-- A call, or the closing and reopening of the file; cues are finite. -/
inductive StoreCall (P : PyLib)
  | put (population : PolicyPopulation P)
  | condition (parentDigest : String) (cue : ℚ) (axes : List (ConditionAxis P))
  | reopen

/-- What a call returns. -/
inductive StoreReply (P : PyLib)
  | population (record : PopulationRecord)
  | transition (record : PopulationTransitionRecord P)
  | opened

/-- A call and the store after it; reopening finds the rows that were committed. -/
def PolicyEcologyStore.call (db : PolicyEcologyStore) :
    StoreCall P → Except PyError (StoreReply P) × PolicyEcologyStore
  | .put population =>
    match db.put C population with
    | .error e => (.error e, db)
    | .ok (record, db') => (.ok (.population record), db')
  | .condition parentDigest cue axes =>
    let (outcome, db') := db.condition C parentDigest (.finite cue) axes
    (outcome.map .transition, db')
  | .reopen => (.ok .opened, db)

/-- The store after calls on a new file. -/
def storeAfter (calls : List (StoreCall P)) : PolicyEcologyStore :=
  calls.foldl (fun db c => (db.call C c).2) {}

/-! ## What is stored -/

section Stored

variable {C} {db db' : PolicyEcologyStore} {p : PolicyPopulation P}

/-- A row of a population, under its digest. -/
def Holds (C : Canon) (row : PopulationRecord) (p : PolicyPopulation P) : Prop :=
  populationDigest C p = .ok row.populationDigest ∧ row.canonicalJson = p.modelDump.reparse

/-- Rows are only added. -/
structure Grows (db db' : PolicyEcologyStore) : Prop where
  populations : db.populations <+: db'.populations
  transitions : db.transitions <+: db'.transitions

theorem Grows.refl (db : PolicyEcologyStore) : Grows db db :=
  ⟨List.prefix_rfl, List.prefix_rfl⟩

theorem Grows.trans {db'' : PolicyEcologyStore} (h : Grows db db') (h' : Grows db' db'') :
    Grows db db'' :=
  ⟨h.populations.trans h'.populations, h.transitions.trans h'.transitions⟩

theorem find?_of_extends {α : Type} {l l' : List α} (h : l <+: l') {q : α → Bool} {a : α}
    (ha : l.find? q = some a) : l'.find? q = some a := by
  obtain ⟨r, rfl⟩ := h
  rw [List.find?_append, ha, Option.some_or]

/-- The row of a key that no other row has. -/
theorem find?_eq_some_of_nodup {α : Type} {key : α → String} : ∀ {l : List α},
    (l.map key).Nodup → ∀ {a : α}, a ∈ l → l.find? (fun b => key b = key a) = some a
  | b :: l, hnodup, a, ha => by
    obtain ⟨hb, hl⟩ := List.nodup_cons.mp hnodup
    rcases List.mem_cons.mp ha with rfl | ha
    · simp
    · have hne : key b ≠ key a := fun h => hb (h ▸ List.mem_map_of_mem ha)
      rw [List.find?_cons_of_neg (by simpa using hne)]
      exact find?_eq_some_of_nodup hl ha

/-- What a row holds is got. -/
theorem get_of_find {digest : String} {row : PopulationRecord} (hholds : Holds C row p)
    (hrow : db.populations.find? (·.populationDigest = digest) = some row) :
    db.get P C digest = .ok (some p) := by
  have hdigest : row.populationDigest = digest := by simpa using List.find?_some hrow
  obtain ⟨hkey, hjson⟩ := hholds
  rw [PolicyEcologyStore.get, hrow]
  dsimp only
  rw [hjson, PolicyPopulation.modelValidate_reparse]
  dsimp only
  rw [hkey, Fallible.ok_bind, hdigest]
  exact if_neg (not_not.mpr rfl)

theorem exists_find_of_get {digest : String} (h : db.get P C digest = .ok (some p)) :
    ∃ row, db.populations.find? (·.populationDigest = digest) = some row := by
  unfold PolicyEcologyStore.get at h
  split at h
  · exact absurd (Except.ok.inj h) nofun
  · next row hrow => exact ⟨row, hrow⟩

/-- What is got once is got ever after. -/
theorem get_of_grows (hgrows : Grows db db') {digest : String}
    (h : db.get P C digest = .ok (some p)) : db'.get P C digest = .ok (some p) := by
  obtain ⟨row, hrow⟩ := exists_find_of_get h
  unfold PolicyEcologyStore.get at h ⊢
  rw [hrow] at h
  rw [find?_of_extends hgrows.populations hrow]
  exact h

/-- What a `put` that returns did. -/
structure Put (C : Canon) (db : PolicyEcologyStore) (p : PolicyPopulation P) (record : PopulationRecord)
    (db' : PolicyEcologyStore) : Prop where
  record_eq : populationRecord C p = .ok record
  holds : Holds C record p
  find : db'.populations.find? (·.populationDigest = record.populationDigest) = some record
  transitions : db'.transitions = db.transitions
  populations : db' = db ∨
    db.populations.find? (·.populationDigest = record.populationDigest) = none ∧
      db'.populations = db.populations ++ [record]

theorem holds_of_populationRecord {record : PopulationRecord}
    (h : populationRecord C p = .ok record) : Holds C record p := by
  simp only [populationRecord, bind_eq_ok] at h
  obtain ⟨digest, hdigest, text, -, h⟩ := h
  split at h
  · exact absurd h nofun
  · obtain rfl := Except.ok.inj h
    exact ⟨hdigest, rfl⟩

theorem put_of_ok {record : PopulationRecord} (h : db.put C p = .ok (record, db')) :
    Put C db p record db' := by
  obtain ⟨record', hrecord, h⟩ := bind_eq_ok.mp h
  have hholds := holds_of_populationRecord hrecord
  cases hfind : db.populations.find? (·.populationDigest = record'.populationDigest) with
  | some existing =>
    simp only [hfind] at h
    split at h
    · exact absurd h nofun
    · next hjson =>
      obtain ⟨rfl, rfl⟩ := Prod.mk.inj (Except.ok.inj h)
      have hdigest : existing.populationDigest = record'.populationDigest := by
        simpa using List.find?_some hfind
      have hsame : existing = record' := by
        cases existing
        cases record'
        simp_all
      exact ⟨hrecord, hholds, hsame ▸ hfind, rfl, Or.inl rfl⟩
  | none =>
    simp only [hfind] at h
    obtain ⟨rfl, rfl⟩ := Prod.mk.inj (Except.ok.inj h)
    refine ⟨hrecord, hholds, ?_, rfl, Or.inr ⟨hfind, rfl⟩⟩
    simp [List.find?_append, hfind]

theorem Put.grows {record : PopulationRecord} (h : Put C db p record db') : Grows db db' := by
  refine ⟨?_, h.transitions ▸ List.prefix_rfl⟩
  rcases h.populations with rfl | ⟨-, heq⟩
  · exact List.prefix_rfl
  · exact heq ▸ List.prefix_append _ _

theorem Put.get {record : PopulationRecord} (h : Put C db p record db') :
    db'.get P C record.populationDigest = .ok (some p) :=
  get_of_find h.holds h.find

/-- Putting again returns the same record. -/
theorem Put.again {record : PopulationRecord} {db'' : PolicyEcologyStore} (h : Put C db p record db')
    (hgrows : Grows db' db'') : db''.put C p = .ok (record, db'') := by
  rw [PolicyEcologyStore.put, h.record_eq, Fallible.ok_bind,
    find?_of_extends hgrows.populations h.find]
  exact if_neg (not_not.mpr rfl)

/-! ## What is linked -/

/-- A row of a transition, between two populations that are got back. -/
structure Linked (C : Canon) (db : PolicyEcologyStore) (row : TransitionRow)
    (parent child : PolicyPopulation P) (axes : List (ConditionAxis P)) : Prop where
  get_parent : db.get P C row.parentDigest = .ok (some parent)
  get_child : db.get P C row.childDigest = .ok (some child)
  conditioned : conditionPopulation parent row.cue axes = .ok child
  childDigest : populationDigest C child = .ok row.childDigest
  transitionDigest : Ecology.transitionDigest C row.parentDigest row.childDigest row.cue axes =
    .ok row.transitionDigest
  axesJson : row.axesJson = (axesValue axes).reparse
  record : ∃ record, PopulationTransitionRecord.construct row.transitionDigest row.parentDigest
    row.childDigest row.cue axes = .ok record

variable {row : TransitionRow} {parent child : PolicyPopulation P} {axes : List (ConditionAxis P)}

theorem Linked.grows (h : Linked C db row parent child axes) (hgrows : Grows db db') :
    Linked C db' row parent child axes :=
  { h with
    get_parent := get_of_grows hgrows h.get_parent
    get_child := get_of_grows hgrows h.get_child }

theorem construct_eq {transitionDigest parentDigest childDigest : String} {cue : PyFloat}
    {record : PopulationTransitionRecord P}
    (h : PopulationTransitionRecord.construct transitionDigest parentDigest childDigest cue axes =
      .ok record) : record.transitionDigest = transitionDigest ∧ record.parentDigest = parentDigest ∧
        record.childDigest = childDigest ∧ record.cue = cue ∧ record.axes = axes := by
  unfold PopulationTransitionRecord.construct at h
  split at h
  · split at h
    · obtain rfl := Except.ok.inj h
      exact ⟨rfl, rfl, rfl, rfl, rfl⟩
    · exact absurd h nofun
  · exact absurd h nofun

/-- A linked transition replays. -/
theorem Linked.replay (h : Linked C db row parent child axes)
    (hrow : db.transitions.find? (·.transitionDigest = row.transitionDigest) = some row) :
    db.replay P C row.transitionDigest = .ok true := by
  obtain ⟨record, hrecord⟩ := h.record
  obtain ⟨hid, hparent, hchild, hcue, haxes⟩ := construct_eq hrecord
  have htransition : db.transition P row.transitionDigest = .ok (some record) := by
    rw [PolicyEcologyStore.transition, hrow]
    dsimp only
    rw [h.axesJson, readList_axesValue]
    dsimp only
    rw [hrecord]
    rfl
  rw [PolicyEcologyStore.replay, htransition, Fallible.ok_bind]
  dsimp only
  rw [hparent, hchild, hcue, haxes, hid, h.get_parent, Fallible.ok_bind, h.get_child,
    Fallible.ok_bind]
  dsimp only
  rw [h.conditioned, Fallible.ok_bind, h.childDigest, Fallible.ok_bind, if_neg (not_not.mpr rfl),
    if_neg (not_not.mpr rfl), h.transitionDigest, Fallible.ok_bind]
  simp
  rfl

/-- The row that a link inserts. -/
def linkRow (transitionDigest parentDigest childDigest : String) (cue : PyFloat)
    (axes : List (ConditionAxis P)) : TransitionRow :=
  ⟨transitionDigest, parentDigest, childDigest, cue, (axesValue axes).reparse⟩

/-- What a `link` that returns did. -/
structure Link (C : Canon) (db : PolicyEcologyStore) (parentDigest childDigest : String)
    (cue : PyFloat) (axes : List (ConditionAxis P)) (record : PopulationTransitionRecord P)
    (db' : PolicyEcologyStore) : Prop where
  digest : transitionDigest C parentDigest childDigest cue axes = .ok record.transitionDigest
  construct : PopulationTransitionRecord.construct record.transitionDigest parentDigest childDigest
    cue axes = .ok record
  text : ∃ b, C.canonicalBytes (axesValue axes) = .ok b
  find : db'.transitions.find? (·.transitionDigest = record.transitionDigest) =
    some (linkRow record.transitionDigest parentDigest childDigest cue axes)
  populations : db'.populations = db.populations
  transitions : db' = db ∨
    db.transitions.find? (·.transitionDigest = record.transitionDigest) = none ∧
      db'.transitions =
        db.transitions ++ [linkRow record.transitionDigest parentDigest childDigest cue axes]

variable {parentDigest childDigest : String} {cue : PyFloat} {record : PopulationTransitionRecord P}

theorem link_of_ok (h : db.link C parentDigest childDigest cue axes = .ok (record, db')) :
    Link C db parentDigest childDigest cue axes record db' := by
  simp only [PolicyEcologyStore.link, bind_eq_ok] at h
  obtain ⟨id, hid, record', hrecord, text, htext, h⟩ := h
  obtain ⟨rfl, -⟩ := construct_eq hrecord
  cases hfind : db.transitions.find? (·.transitionDigest = record'.transitionDigest) with
  | some existing =>
    simp only [hfind] at h
    split at h
    · exact absurd h nofun
    · next hsame =>
      obtain ⟨rfl, rfl⟩ := Prod.mk.inj (Except.ok.inj h)
      rw [not_not.mp hsame] at hfind
      exact ⟨hid, hrecord, ⟨text, htext⟩, hfind, rfl, Or.inl rfl⟩
  | none =>
    simp only [hfind] at h
    split at h
    · obtain ⟨rfl, rfl⟩ := Prod.mk.inj (Except.ok.inj h)
      refine ⟨hid, hrecord, ⟨text, htext⟩, ?_, rfl, Or.inr ⟨hfind, rfl⟩⟩
      simp [List.find?_append, hfind, linkRow]
    · exact absurd h nofun

theorem Link.grows (h : Link C db parentDigest childDigest cue axes record db') : Grows db db' := by
  refine ⟨h.populations ▸ List.prefix_rfl, ?_⟩
  rcases h.transitions with rfl | ⟨-, heq⟩
  · exact List.prefix_rfl
  · exact heq ▸ List.prefix_append _ _

/-- Linking again returns the same record. -/
theorem Link.again {db'' : PolicyEcologyStore}
    (h : Link C db parentDigest childDigest cue axes record db') (hgrows : Grows db' db'') :
    db''.link C parentDigest childDigest cue axes = .ok (record, db'') := by
  obtain ⟨text, htext⟩ := h.text
  rw [PolicyEcologyStore.link, h.digest, Fallible.ok_bind, h.construct, Fallible.ok_bind, htext,
    Fallible.ok_bind, find?_of_extends hgrows.transitions h.find]
  exact if_neg (not_not.mpr rfl)

/-! ## Conditioning -/

/-- What a `condition` did, that returns or is refused. -/
theorem condition_cases (db : PolicyEcologyStore) (parentDigest : String) (cue : PyFloat)
    (axes : List (ConditionAxis P)) :
    (∃ e, db.condition C parentDigest cue axes = (.error e, db)) ∨
    ∃ child childRecord db', db.childOf C parentDigest cue axes = .ok child ∧
      db.put C child = .ok (childRecord, db') ∧
      ((∃ e, db.condition C parentDigest cue axes = (.error e, db') ∧
          db'.link C parentDigest childRecord.populationDigest cue axes = .error e) ∨
        ∃ record db'', db.condition C parentDigest cue axes = (.ok record, db'') ∧
          db'.link C parentDigest childRecord.populationDigest cue axes = .ok (record, db'')) := by
  cases hput : db.childOf C parentDigest cue axes >>= db.put C with
  | error e => exact Or.inl ⟨e, by simp only [PolicyEcologyStore.condition, hput]⟩
  | ok r =>
    obtain ⟨childRecord, db'⟩ := r
    obtain ⟨child, hchild, hput'⟩ := bind_eq_ok.mp hput
    refine Or.inr ⟨child, childRecord, db', hchild, hput', ?_⟩
    cases hlink : db'.link C parentDigest childRecord.populationDigest cue axes with
    | error e => exact Or.inl ⟨e, by simp only [PolicyEcologyStore.condition, hput, hlink], rfl⟩
    | ok r => exact Or.inr ⟨r.1, r.2, by simp only [PolicyEcologyStore.condition, hput, hlink], rfl⟩

theorem childOf_eq_ok (h : db.childOf C parentDigest cue axes = .ok child) :
    ∃ parent, db.get P C parentDigest = .ok (some parent) ∧
      conditionPopulation parent cue axes = .ok child := by
  obtain ⟨found, hfound, h⟩ := bind_eq_ok.mp h
  cases found with
  | none => exact absurd h nofun
  | some parent => exact ⟨parent, hfound, h⟩

theorem childOf_of_grows (hgrows : Grows db db') (h : db.childOf C parentDigest cue axes = .ok child) :
    db'.childOf C parentDigest cue axes = .ok child := by
  obtain ⟨parent, hparent, hchild⟩ := childOf_eq_ok h
  rw [PolicyEcologyStore.childOf, get_of_grows hgrows hparent]
  exact hchild

/-! ## Every reachable store -/

variable (P C) in
/-- Every row holds a population or links two, and no digest has two rows. -/
structure Sound (db : PolicyEcologyStore) : Prop where
  held : ∀ row ∈ db.populations, ∃ p : PolicyPopulation P, Holds C row p
  linked : ∀ row ∈ db.transitions, ∃ (parent child : PolicyPopulation P)
    (axes : List (ConditionAxis P)), Linked C db row parent child axes
  populations : (db.populations.map PopulationRecord.populationDigest).Nodup
  transitions : (db.transitions.map TransitionRow.transitionDigest).Nodup

theorem nodup_snoc {α : Type} {key : α → String} {l : List α} (hl : (l.map key).Nodup) {a : α}
    (ha : l.find? (fun b => key b = key a) = none) : ((l ++ [a]).map key).Nodup := by
  rw [List.map_append]
  refine List.nodup_append'.mpr ⟨hl, List.nodup_singleton _, ?_⟩
  rw [List.map_singleton, List.disjoint_singleton]
  rintro hmem
  obtain ⟨b, hb, hkey⟩ := List.mem_map.mp hmem
  simpa [hkey] using List.find?_eq_none.mp ha b hb

theorem Sound.put (h : Sound P C db) {record : PopulationRecord} (hput : Put C db p record db') :
    Sound P C db' := by
  have hlinked : ∀ row ∈ db.transitions, ∃ (parent child : PolicyPopulation P)
      (axes : List (ConditionAxis P)), Linked C db' row parent child axes := by
    intro row hrow
    obtain ⟨parent, child, axes, hlinked⟩ := h.linked row hrow
    exact ⟨parent, child, axes, hlinked.grows hput.grows⟩
  rcases hput.populations with rfl | ⟨hfresh, heq⟩
  · exact h
  · refine ⟨fun row hrow => ?_, hput.transitions ▸ hlinked, ?_, hput.transitions ▸ h.transitions⟩
    · rw [heq] at hrow
      rcases List.mem_append.mp hrow with hrow | hrow
      · exact h.held row hrow
      · exact ⟨p, List.mem_singleton.mp hrow ▸ hput.holds⟩
    · rw [heq]
      exact nodup_snoc h.populations hfresh

theorem Sound.link (h : Sound P C db)
    (hlink : Link C db parentDigest childDigest cue axes record db')
    (hparent : db.get P C parentDigest = .ok (some parent))
    (hchild : db.get P C childDigest = .ok (some child))
    (hconditioned : conditionPopulation parent cue axes = .ok child)
    (hdigest : populationDigest C child = .ok childDigest) : Sound P C db' := by
  have hnew : Linked C db' (linkRow record.transitionDigest parentDigest childDigest cue axes) parent
      child axes :=
    { get_parent := get_of_grows hlink.grows hparent
      get_child := get_of_grows hlink.grows hchild
      conditioned := hconditioned
      childDigest := hdigest
      transitionDigest := hlink.digest
      axesJson := rfl
      record := ⟨record, hlink.construct⟩ }
  rcases hlink.transitions with rfl | ⟨hfresh, heq⟩
  · exact h
  · refine ⟨hlink.populations ▸ h.held, fun row hrow => ?_, hlink.populations ▸ h.populations, ?_⟩
    · rw [heq] at hrow
      rcases List.mem_append.mp hrow with hrow | hrow
      · obtain ⟨parent, child, axes, hlinked⟩ := h.linked row hrow
        exact ⟨parent, child, axes, hlinked.grows hlink.grows⟩
      · exact ⟨parent, child, axes, List.mem_singleton.mp hrow ▸ hnew⟩
    · rw [heq]
      exact nodup_snoc h.transitions hfresh

/-- What a call keeps and adds. -/
theorem Sound.call (h : Sound P C db) (c : StoreCall P) :
    Sound P C (db.call C c).2 ∧ Grows db (db.call C c).2 := by
  cases c with
  | put p =>
    cases hput : db.put C p with
    | error e => simpa only [PolicyEcologyStore.call, hput] using ⟨h, Grows.refl db⟩
    | ok r =>
      have hput' : Put C db p r.1 r.2 := put_of_ok hput
      simpa only [PolicyEcologyStore.call, hput] using ⟨h.put hput', hput'.grows⟩
  | condition parentDigest cue axes =>
    rcases condition_cases (C := C) db parentDigest (.finite cue) axes with
      ⟨e, he⟩ | ⟨child, childRecord, db', hchild, hput, hlink⟩
    · simpa only [PolicyEcologyStore.call, he] using ⟨h, Grows.refl db⟩
    · have hput' := put_of_ok hput
      have h' := h.put hput'
      rcases hlink with ⟨e, he, -⟩ | ⟨record, db'', he, hlink⟩
      · simpa only [PolicyEcologyStore.call, he] using ⟨h', hput'.grows⟩
      · have hlink' := link_of_ok hlink
        obtain ⟨parent, hparent, hconditioned⟩ := childOf_eq_ok hchild
        have hsound := h'.link hlink' (get_of_grows hput'.grows hparent) hput'.get hconditioned
          hput'.holds.1
        simpa only [PolicyEcologyStore.call, he] using ⟨hsound, hput'.grows.trans hlink'.grows⟩
  | reopen => exact ⟨h, Grows.refl db⟩

/-- A call that returned returns the same again, whatever was stored since. -/
theorem call_of_grows {c : StoreCall P} {reply : StoreReply P}
    (hreply : (db.call C c).1 = .ok reply) (hgrows : Grows (db.call C c).2 db') :
    db'.call C c = (.ok reply, db') := by
  cases c with
  | put p =>
    cases hput : db.put C p with
    | error e => simp only [PolicyEcologyStore.call, hput] at hreply; exact absurd hreply nofun
    | ok r =>
      simp only [PolicyEcologyStore.call, hput] at hreply hgrows
      have hput' : Put C db p r.1 r.2 := put_of_ok hput
      have hagain := hput'.again hgrows
      simp only [PolicyEcologyStore.call, hagain, ← hreply]
  | condition parentDigest cue axes =>
    rcases condition_cases (C := C) db parentDigest (.finite cue) axes with
      ⟨e, he⟩ | ⟨child, childRecord, db₁, hchild, hput, ⟨e, he, -⟩ | ⟨record, db₂, he, hlink⟩⟩
    · simp only [PolicyEcologyStore.call, he] at hreply
      exact absurd hreply nofun
    · simp only [PolicyEcologyStore.call, he] at hreply
      exact absurd hreply nofun
    · simp only [PolicyEcologyStore.call, he] at hreply hgrows
      have hput' := put_of_ok hput
      have hlink' := link_of_ok hlink
      have hgrows' := hlink'.grows.trans hgrows
      have hchild' := childOf_of_grows (hput'.grows.trans hgrows') hchild
      simp only [PolicyEcologyStore.call, PolicyEcologyStore.condition, hchild', Fallible.ok_bind,
        hput'.again hgrows', hlink'.again hgrows, ← hreply]
  | reopen =>
    obtain rfl := Except.ok.inj hreply
    rfl

/-- A call repeated at once changes nothing, refused or not. -/
theorem call_twice (db : PolicyEcologyStore) (c : StoreCall P) :
    ((db.call C c).2.call C c).2 = (db.call C c).2 := by
  cases hreply : (db.call C c).1 with
  | ok reply => rw [call_of_grows hreply (Grows.refl _)]
  | error e =>
    cases c with
    | put p =>
      cases hput : db.put C p with
      | error e => simp only [PolicyEcologyStore.call, hput]
      | ok r => simp only [PolicyEcologyStore.call, hput] at hreply; exact absurd hreply nofun
    | condition parentDigest cue axes =>
      rcases condition_cases (C := C) db parentDigest (.finite cue) axes with
        ⟨e, he⟩ | ⟨child, childRecord, db₁, hchild, hput, ⟨e, he, hlink⟩ | ⟨record, db₂, he, hlink⟩⟩
      · simp only [PolicyEcologyStore.call, he]
      · -- the child is stored, and the transition refused again
        have hput' := put_of_ok hput
        have hchild' := childOf_of_grows hput'.grows hchild
        simp only [PolicyEcologyStore.call, he]
        simp only [PolicyEcologyStore.condition, hchild', Fallible.ok_bind,
          hput'.again (Grows.refl _), hlink]
      · simp only [PolicyEcologyStore.call, he] at hreply
        exact absurd hreply nofun
    | reopen => exact absurd hreply nofun

theorem allM_eq_ok_true {α : Type} {f : α → Except PyError Bool} :
    ∀ {l : List α}, (∀ a ∈ l, f a = .ok true) → l.allM f = .ok true
  | [], _ => rfl
  | a :: l, h => by
    rw [List.allM, h a List.mem_cons_self]
    exact allM_eq_ok_true fun b hb => h b (List.mem_cons_of_mem _ hb)

theorem Sound.get (h : Sound P C db) {row : PopulationRecord} (hrow : row ∈ db.populations) :
    ∃ p : PolicyPopulation P, populationDigest C p = .ok row.populationDigest ∧
      db.get P C row.populationDigest = .ok (some p) := by
  obtain ⟨p, hholds⟩ := h.held row hrow
  exact ⟨p, hholds.1, get_of_find hholds (find?_eq_some_of_nodup h.populations hrow)⟩

theorem Sound.replay (h : Sound P C db) {row : TransitionRow} (hrow : row ∈ db.transitions) :
    db.replay P C row.transitionDigest = .ok true := by
  obtain ⟨parent, child, axes, hlinked⟩ := h.linked row hrow
  exact hlinked.replay (find?_eq_some_of_nodup h.transitions hrow)

theorem exists_canonicalBytes {v : Value} {digest : String} (h : C.digest v = .ok digest) :
    ∃ text, C.canonicalBytes v = .ok text := by
  unfold Canon.digest at h
  cases htext : C.canonicalBytes v with
  | error e =>
    rw [htext] at h
    exact absurd h nofun
  | ok text => exact ⟨text, rfl⟩

theorem Sound.verify (h : Sound P C db) : db.verify P C = .ok true := by
  have hpopulations : ∀ row ∈ db.populations,
      PolicyEcologyStore.verifyPopulation P C row = .ok true := by
    intro row hrow
    obtain ⟨p, hdigest, hjson⟩ := h.held row hrow
    obtain ⟨text, htext⟩ := exists_canonicalBytes hdigest
    rw [PolicyEcologyStore.verifyPopulation, hjson, PolicyPopulation.modelValidate_reparse]
    dsimp only
    rw [hdigest, Fallible.ok_bind, if_neg (not_not.mpr rfl), htext, Fallible.ok_bind]
    exact congrArg Except.ok (decide_eq_true rfl)
  rw [PolicyEcologyStore.verify, allM_eq_ok_true fun row hrow =>
    hpopulations row ((List.mem_insertionSort _).mp hrow), Fallible.ok_bind, if_pos rfl]
  refine allM_eq_ok_true fun row hrow => ?_
  exact h.replay ((List.mem_insertionSort _).mp hrow)

theorem sound_empty : Sound P C {} :=
  ⟨nofun, nofun, List.nodup_nil, List.nodup_nil⟩

/-- What a run keeps and adds. -/
theorem Sound.run : ∀ {calls : List (StoreCall P)} {db : PolicyEcologyStore}, Sound P C db →
    Sound P C (calls.foldl (fun db c => (db.call C c).2) db) ∧
      Grows db (calls.foldl (fun db c => (db.call C c).2) db)
  | [], db, h => ⟨h, Grows.refl db⟩
  | c :: calls, db, h => by
    obtain ⟨hcall, hgrows⟩ := h.call c
    have hrun := @Sound.run calls _ hcall
    exact ⟨hrun.1, hgrows.trans hrun.2⟩

theorem sound_storeAfter (calls : List (StoreCall P)) : Sound P C (storeAfter C calls) :=
  sound_empty.run.1

/-- The rows after a call are there at the end. -/
theorem grows_storeAfter (before : List (StoreCall P)) (c : StoreCall P) (after : List (StoreCall P)) :
    Grows ((storeAfter C before).call C c).2 (storeAfter C (before ++ c :: after)) := by
  rw [storeAfter, storeAfter, List.foldl_append, List.foldl_cons]
  exact (((sound_storeAfter before).call c).1.run).2

end Stored

/-- What holds of the store after calls. -/
structure Replayable (C : Canon) (calls : List (StoreCall P)) (db : PolicyEcologyStore) : Prop where
  put : ∀ before p after record, calls = before ++ .put p :: after →
    ((storeAfter C before).call C (.put p)).1 = .ok (.population record) →
      db.get P C record.populationDigest = .ok (some p)
  get : ∀ row ∈ db.populations, ∃ p : PolicyPopulation P,
    populationDigest C p = .ok row.populationDigest ∧
      db.get P C row.populationDigest = .ok (some p)
  replay : ∀ row ∈ db.transitions, db.replay P C row.transitionDigest = .ok true
  verify : db.verify P C = .ok true
  again : ∀ before c after reply, calls = before ++ c :: after →
    ((storeAfter C before).call C c).1 = .ok reply → db.call C c = (.ok reply, db)
  twice : ∀ c : StoreCall P, ((db.call C c).2.call C c).2 = (db.call C c).2

/-- Every stored conditioning transition replays. -/
theorem stored_transitions_replay (C : Canon) (calls : List (StoreCall P)) :
    Replayable C calls (storeAfter C calls) := by
  have hsound := sound_storeAfter (C := C) calls
  refine
    { put := ?_
      get := fun row hrow => hsound.get hrow
      replay := fun row hrow => hsound.replay hrow
      verify := hsound.verify
      again := ?_
      twice := call_twice _ }
  · rintro before p after record rfl hreply
    have hgrows := grows_storeAfter (C := C) before (.put p) after
    cases hput : (storeAfter C before).put C p with
    | error e =>
      simp only [PolicyEcologyStore.call, hput] at hreply
      exact absurd hreply nofun
    | ok r =>
      simp only [PolicyEcologyStore.call, hput] at hreply hgrows
      obtain rfl : r.1 = record := StoreReply.population.inj (Except.ok.inj hreply)
      exact get_of_grows hgrows (put_of_ok hput).get
  · rintro before c after reply rfl hreply
    exact call_of_grows hreply (grows_storeAfter before c after)

end GymAct.Ecology
