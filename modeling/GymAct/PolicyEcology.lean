import GymAct.Reparse
import Mathlib.Data.List.Infix
import Mathlib.Data.String.Basic

/-!
# Policy populations

`policy_ecology.py`. A record holds the proofs of what its validators ask, so that a population
is one that was admitted. Floats are their values : a negative zero is zero. What the code takes
from the standard library, `unicodedata` and the arithmetic of floats among it, is the parameter
`PyLib`, a function of its arguments and nothing else. The diversity of a population and the
default axes, which are axes among others, are left out.

`ReactionNorm.apply` moves a condition along its slopes and `conditionPopulation` every member of
an adaptive population.
-/

namespace GymAct.Ecology

/-! ## The standard library -/

/-- `unicodedata`, `str.casefold`, `repr`, the arithmetic of floats and `sum`. -/
structure PyLib where
  nfkc : String → String
  isFormat : Char → Bool
  casefold : String → String
  repr : String → String
  add : PyFloat → PyFloat → PyFloat
  sub : PyFloat → PyFloat → PyFloat
  mul : PyFloat → PyFloat → PyFloat
  sum : List PyFloat → PyFloat

/-- `isfinite`. -/
def isFinite : PyFloat → Bool
  | .finite _ => true
  | _ => false

/-- `<`. -/
def floatLt : PyFloat → PyFloat → Bool
  | .nan, _ | _, .nan => false
  | .finite a, .finite b => a < b
  | .negInf, b => b ≠ .negInf
  | a, .inf => a ≠ .inf
  | _, _ => false

/-- `<=`. -/
def floatLe (a b : PyFloat) : Bool := floatLt a b || (a = b && a ≠ .nan)

/-- `max(a, b)`. -/
def floatMax (a b : PyFloat) : PyFloat := if floatLt a b then b else a

/-- `min(a, b)`. -/
def floatMin (a b : PyFloat) : PyFloat := if floatLt b a then b else a

/-- `d[key] = value`. -/
def assign {α : Type} (d : List (String × α)) (key : String) (value : α) : List (String × α) :=
  if (d.lookup key).isSome then d.map fun e => if e.1 = key then (key, value) else e
  else d ++ [(key, value)]

/-- `raise ValueError("REFUSED:…")`. -/
def refused {α : Type} (reason : String) : Except PyError α :=
  .error ⟨"ValueError", "REFUSED:" ++ reason⟩

/-- What a validator of a model raises. -/
def validationError (e : PyError) : PyError := ⟨"ValidationError", "Value error, " ++ e.message⟩

/-- A field outside its constraints, by the name of its model. -/
def invalid {α : Type} (model : String) : Except PyError α := .error ⟨"ValidationError", model⟩

/-- A model whose validator passes. -/
def admitted {α : Type} : (check : Except PyError Unit) → (check = .ok () → α) → Except PyError α
  | .ok (), model => .ok (model rfl)
  | .error e, _ => .error (validationError e)

theorem admitted_of_ok {α : Type} {check : Except PyError Unit} (h : check = .ok ())
    (model : check = .ok () → α) : admitted check model = .ok (model h) := by
  subst h
  rfl

/-! ## Axis ids -/

section AxisIds

variable (P : PyLib)

def isLower (c : Char) : Bool := 'a' ≤ c && c ≤ 'z'

def isUpper (c : Char) : Bool := 'A' ≤ c && c ≤ 'Z'

def isDigit (c : Char) : Bool := '0' ≤ c && c ≤ '9'

/-- `_visible_nfkc`. -/
def visibleNfkc (axisId : String) : List Char := (P.nfkc axisId).toList.filter fun c => !P.isFormat c

/-- `_CAMEL_BOUNDARY.sub("_", …)`, after a character. -/
def camelBoundary : Option Char → List Char → List Char
  | _, [] => []
  | previous, c :: rest =>
    let boundary := previous.any fun p =>
      ((isLower p || isDigit p) && isUpper c) || (isUpper p && isUpper c && rest.head?.any isLower)
    if boundary then '_' :: c :: camelBoundary (some c) rest else c :: camelBoundary (some c) rest

/-- `_AXIS_SEPARATORS.sub("_", …)`, inside a run of separators or not. -/
def axisSeparators : Bool → List Char → List Char
  | _, [] => []
  | inside, c :: rest =>
    if isLower c || isDigit c then c :: axisSeparators false rest
    else if inside then axisSeparators true rest
    else '_' :: axisSeparators true rest

/-- `strip("_")`. -/
def strip (text : List Char) : List Char :=
  ((text.dropWhile (· = '_')).reverse.dropWhile (· = '_')).reverse

/-- `_normalized_axis_id`. -/
def normalizedAxisId (axisId : String) : String :=
  let split := camelBoundary none (visibleNfkc P axisId)
  String.ofList (strip (axisSeparators false (P.casefold (String.ofList split)).toList))

/-- `_axis_is_non_ascii`. -/
def axisIsNonAscii (axisId : String) : Bool := (visibleNfkc P axisId).any fun c => 128 ≤ c.toNat

/-- `_FORBIDDEN_AUTHORITY_WORDS`. -/
def forbiddenWords : List String := ["do", "auth", "sudo"]

/-- `_FORBIDDEN_AUTHORITY_STEMS`. -/
def forbiddenStems : List String :=
  ["authori", "authz", "permission", "permit", "privilege", "entitle", "grant", "capabilit", "execut"]

/-- `_FORBIDDEN_AUTHORITY_SUBSTRINGS`. -/
def forbiddenSubstrings : List String :=
  ["authori", "permission", "privilege", "entitlement", "executiongrant", "executionauthority"]

/-- `_encodes_authority`. -/
def encodesAuthority (axisId : String) : Bool :=
  if axisIsNonAscii P axisId then true
  else
    let normalized := (normalizedAxisId P axisId).toList
    let words := normalized.splitOn '_'
    let collapsed := normalized.filter (· ≠ '_')
    String.ofList collapsed ∈ forbiddenWords ||
      words.any (String.ofList · ∈ forbiddenWords) ||
      words.any (fun word => forbiddenStems.any fun stem => stem.toList.isPrefixOf word) ||
      forbiddenSubstrings.any fun fragment => decide (fragment.toList <:+: collapsed)

/-- `_require_finite`. -/
def requireFinite (value : PyFloat) (refusal : String) : Except PyError Unit :=
  if isFinite value then .ok () else refused refusal

/-- `_admit_axis_id`. -/
def admitAxisId (axisId : String) : Except PyError Unit :=
  if axisIsNonAscii P axisId then
    refused ("TEMPERAMENT_CANNOT_ENCODE_AUTHORITY:NON_ASCII_AXIS:" ++ P.repr axisId)
  else if normalizedAxisId P axisId = "" then refused "EMPTY_CONDITION_AXIS"
  else if encodesAuthority P axisId then refused ("TEMPERAMENT_CANNOT_ENCODE_AUTHORITY:" ++ axisId)
  else .ok ()

/-- `sorted(pairs)`. Pairs of one key are refused as duplicates, whatever their numbers are. -/
def sortPairs (pairs : List (String × PyFloat)) : List (String × PyFloat) :=
  pairs.insertionSort fun a b => a.1 ≤ b.1

theorem sortPairs_sortPairs (pairs : List (String × PyFloat)) :
    sortPairs (sortPairs pairs) = sortPairs pairs := by
  let le (a b : String × PyFloat) : Prop := a.1 ≤ b.1
  have : Std.Total le := ⟨fun a b => le_total a.1 b.1⟩
  have : IsTrans _ le := ⟨fun _ _ _ => le_trans⟩
  exact List.Pairwise.insertionSort_eq (List.pairwise_insertionSort le pairs)

/-- `_refuse_axis_pairs`. -/
def refuseAxisPairs (pairs : List (String × PyFloat)) (duplicate : String)
    (nonFinite : String := "NON_FINITE_CONDITION_VALUE") : Except PyError Unit := do
  (sortPairs pairs).forM fun e => admitAxisId P e.1
  let normalized := pairs.map fun e => normalizedAxisId P e.1
  if ¬normalized.Nodup then refused duplicate
  else pairs.forM fun e => requireFinite e.2 (nonFinite ++ ":" ++ e.1)

end AxisIds

/-! ## Models -/

/-- `PopulationKind`. -/
inductive PopulationKind
  | homogeneous
  | incidental
  | engineered
  | adaptive
  deriving DecidableEq, Repr

/-- `valid_axis`. -/
def validAxis (P : PyLib) (axisId : String) (lower upper : PyFloat) : Except PyError Unit := do
  admitAxisId P axisId
  requireFinite lower "NON_FINITE_CONDITION_AXIS_BOUND"
  requireFinite upper "NON_FINITE_CONDITION_AXIS_BOUND"
  if floatLe upper lower then refused "CONDITION_AXIS_REQUIRES_NONEMPTY_RANGE" else .ok ()

/-- An axis of a condition and its range. -/
@[ext]
structure ConditionAxis (P : PyLib) where
  axisId : String
  lower : PyFloat := .finite 0
  upper : PyFloat := .finite 1
  provenanceRefs : List String := []
  axisId_ne : axisId ≠ ""
  valid : validAxis P axisId lower upper = .ok ()

instance : DecidableEq (ConditionAxis P) := fun _ _ =>
  decidable_of_iff _ ConditionAxis.ext_iff.symm

/-- A point on a manifold of behaviors; its values are in order. -/
@[ext]
structure StrategicCondition (P : PyLib) where
  values : List (String × PyFloat)
  sorted : sortPairs values = values
  unique : refuseAxisPairs P values "DUPLICATE_CONDITION_AXIS" = .ok ()
  deriving DecidableEq

/-- `unique_non_authority_axes`, of a reaction norm. -/
def validNorm (P : PyLib) (slopes : List (String × PyFloat)) (referenceCue : PyFloat) :
    Except PyError Unit := do
  refuseAxisPairs P slopes "DUPLICATE_REACTION_NORM_AXIS"
  requireFinite referenceCue "NON_FINITE_REFERENCE_CUE"

/-- The linear response of a condition to a cue. -/
@[ext]
structure ReactionNorm (P : PyLib) where
  slopes : List (String × PyFloat)
  referenceCue : PyFloat := .finite 0
  sorted : sortPairs slopes = slopes
  unique : validNorm P slopes referenceCue = .ok ()
  deriving DecidableEq

/-- A policy in a condition. -/
@[ext]
structure PolicyPhenotype (P : PyLib) where
  policyRef : String
  condition : StrategicCondition P
  evidenceRefs : List String := []
  policyRef_ne : policyRef ≠ ""

instance : DecidableEq (PolicyPhenotype P) := fun _ _ =>
  decidable_of_iff _ PolicyPhenotype.ext_iff.symm

structure WeightedPhenotype (P : PyLib) where
  phenotype : PolicyPhenotype P
  weight : PyFloat
  finite : isFinite weight = true
  positive : floatLt (.finite 0) weight = true
  deriving DecidableEq

/-- `population_contract`, and the refusal of `normalized_weights`. -/
def populationContract (P : PyLib) (kind : PopulationKind) (members : List (WeightedPhenotype P))
    (reactionNorm : Option (ReactionNorm P)) : Except PyError Unit := do
  if kind = .homogeneous ∧ members.length ≠ 1 then
    refused "HOMOGENEOUS_POPULATION_REQUIRES_ONE_PHENOTYPE"
  if kind = .adaptive ∧ reactionNorm = none then
    refused "ADAPTIVE_POPULATION_REQUIRES_REACTION_NORM"
  let total := P.sum (members.map WeightedPhenotype.weight)
  if isFinite total = false ∨ floatLe total (.finite 0) then
    refused "POPULATION_WEIGHT_NOT_NORMALIZABLE"

structure PolicyPopulation (P : PyLib) where
  kind : PopulationKind
  members : List (WeightedPhenotype P)
  reactionNorm : Option (ReactionNorm P) := none
  members_ne : members ≠ []
  contract : populationContract P kind members reactionNorm = .ok ()
  deriving DecidableEq

variable {P : PyLib}

/-- `ConditionAxis(axis_id=…, lower=…, upper=…, provenance_refs=…)`. -/
def ConditionAxis.construct (P : PyLib) (axisId : String) (lower upper : PyFloat)
    (provenanceRefs : List String) : Except PyError (ConditionAxis P) :=
  if hne : axisId = "" then invalid "ConditionAxis"
  else admitted (validAxis P axisId lower upper) fun h =>
    ⟨axisId, lower, upper, provenanceRefs, hne, h⟩

theorem ConditionAxis.construct_axisId (a : ConditionAxis P) :
    construct P a.axisId a.lower a.upper a.provenanceRefs = .ok a := by
  rw [construct, dif_neg a.axisId_ne, admitted_of_ok a.valid]

/-- `StrategicCondition(values=…)`. -/
def StrategicCondition.construct (P : PyLib) (values : List (String × PyFloat)) :
    Except PyError (StrategicCondition P) :=
  admitted (refuseAxisPairs P (sortPairs values) "DUPLICATE_CONDITION_AXIS") fun h =>
    ⟨sortPairs values, sortPairs_sortPairs values, h⟩

theorem StrategicCondition.construct_values (c : StrategicCondition P) :
    construct P c.values = .ok c := by
  have h : refuseAxisPairs P (sortPairs c.values) "DUPLICATE_CONDITION_AXIS" = .ok () := by
    rw [c.sorted, c.unique]
  rw [construct, admitted_of_ok h]
  exact congrArg Except.ok (StrategicCondition.ext c.sorted)

/-- `ReactionNorm(slopes=…, reference_cue=…)`. -/
def ReactionNorm.construct (P : PyLib) (slopes : List (String × PyFloat)) (referenceCue : PyFloat) :
    Except PyError (ReactionNorm P) :=
  admitted (validNorm P (sortPairs slopes) referenceCue) fun h =>
    ⟨sortPairs slopes, referenceCue, sortPairs_sortPairs slopes, h⟩

theorem ReactionNorm.construct_slopes (norm : ReactionNorm P) :
    construct P norm.slopes norm.referenceCue = .ok norm := by
  have h : validNorm P (sortPairs norm.slopes) norm.referenceCue = .ok () := by
    rw [norm.sorted, norm.unique]
  rw [construct, admitted_of_ok h]
  exact congrArg Except.ok (ReactionNorm.ext norm.sorted rfl)

/-- `PolicyPhenotype(policy_ref=…, condition=…, evidence_refs=…)`. -/
def PolicyPhenotype.construct (policyRef : String) (condition : StrategicCondition P)
    (evidenceRefs : List String) : Except PyError (PolicyPhenotype P) :=
  if hne : policyRef = "" then invalid "PolicyPhenotype"
  else .ok ⟨policyRef, condition, evidenceRefs, hne⟩

/-- `WeightedPhenotype(phenotype=…, weight=…)`. -/
def WeightedPhenotype.construct (phenotype : PolicyPhenotype P) (weight : PyFloat) :
    Except PyError (WeightedPhenotype P) :=
  if h : isFinite weight = true ∧ floatLt (.finite 0) weight = true then
    .ok ⟨phenotype, weight, h.1, h.2⟩
  else invalid "WeightedPhenotype"

/-- `PolicyPopulation(kind=…, members=…, reaction_norm=…)`. -/
def PolicyPopulation.construct (kind : PopulationKind) (members : List (WeightedPhenotype P))
    (reactionNorm : Option (ReactionNorm P)) : Except PyError (PolicyPopulation P) :=
  if hne : members = [] then invalid "PolicyPopulation"
  else admitted (populationContract P kind members reactionNorm) fun h =>
    ⟨kind, members, reactionNorm, hne, h⟩

theorem PolicyPopulation.construct_members (p : PolicyPopulation P) :
    construct p.kind p.members p.reactionNorm = .ok p := by
  rw [construct, dif_neg p.members_ne, admitted_of_ok p.contract]

/-! ## Conditioning -/

/-- The range of every axis, by its normalized id. -/
def rangesOf (axes : List (ConditionAxis P)) : Except PyError (List (String × ConditionAxis P)) :=
  axes.foldlM (fun ranges axis =>
    let key := normalizedAxisId P axis.axisId
    if (ranges.lookup key).isSome then refused ("DUPLICATE_CONDITION_AXIS:" ++ axis.axisId)
    else .ok (assign ranges key axis)) []

/-- A value outside the range of its axis. -/
def checkRange (ranges : List (String × ConditionAxis P)) (e : String × PyFloat) :
    Except PyError Unit :=
  match ranges.lookup (normalizedAxisId P e.1) with
  | none => .ok ()
  | some axis =>
    if floatLe axis.lower e.2 && floatLe e.2 axis.upper then .ok ()
    else refused ("CONDITION_OUTSIDE_AXIS_RANGE:" ++ e.1)

/-- The values of a condition, and how their axes are spelled. -/
structure Moving where
  values : List (String × PyFloat)
  spelled : List (String × String)

/-- The body of the loop over the slopes. -/
def moveAlong (ranges : List (String × ConditionAxis P)) (delta : PyFloat) (m : Moving)
    (e : String × PyFloat) : Except PyError Moving := do
  let key := normalizedAxisId P e.1
  match ranges.lookup key with
  | none => refused ("UNKNOWN_CONDITION_AXIS:" ++ e.1)
  | some axis =>
    let target := (m.spelled.lookup key).getD e.1
    let value := P.add ((m.values.lookup target).getD axis.lower) (P.mul e.2 delta)
    requireFinite value ("NON_FINITE_CONDITION_VALUE:" ++ e.1)
    return {
      values := assign m.values target (floatMin axis.upper (floatMax axis.lower value))
      spelled := assign m.spelled key target }

/-- `ReactionNorm.apply`. -/
def ReactionNorm.apply (norm : ReactionNorm P) (baseline : StrategicCondition P) (cue : PyFloat)
    (axes : List (ConditionAxis P)) : Except PyError (StrategicCondition P) := do
  requireFinite cue "NON_FINITE_CUE"
  let ranges ← rangesOf axes
  let values := baseline.values
  let spelled := values.foldl (fun d e => assign d (normalizedAxisId P e.1) e.1) []
  values.forM (checkRange ranges)
  let delta := P.sub cue norm.referenceCue
  let moved ← norm.slopes.foldlM (moveAlong ranges delta) ⟨values, spelled⟩
  StrategicCondition.construct P (sortPairs moved.values)

/-- The member of a conditioned population. -/
def WeightedPhenotype.conditioned (norm : ReactionNorm P) (cue : PyFloat)
    (axes : List (ConditionAxis P)) (member : WeightedPhenotype P) :
    Except PyError (WeightedPhenotype P) := do
  let condition ← norm.apply member.phenotype.condition cue axes
  return { member with phenotype := { member.phenotype with condition } }

/-- `condition_population`. -/
def conditionPopulation (population : PolicyPopulation P) (cue : PyFloat)
    (axes : List (ConditionAxis P)) : Except PyError (PolicyPopulation P) :=
  if population.kind ≠ .adaptive then .ok population
  else
    match population.reactionNorm with
    | none => refused "ADAPTIVE_POPULATION_REQUIRES_REACTION_NORM"
    | some norm => do
      let members ← population.members.mapM (WeightedPhenotype.conditioned norm cue axes)
      PolicyPopulation.construct population.kind members (some norm)

/-- Exact arithmetic of finite floats, and texts as they are. -/
def exactLib : PyLib where
  nfkc := id
  isFormat := fun _ => false
  casefold := id
  repr := id
  add := exactly (· + ·)
  sub := exactly (· - ·)
  mul := exactly (· * ·)
  sum := fun l => l.foldl (exactly (· + ·)) (.finite 0)
where
  exactly (op : ℚ → ℚ → ℚ) : PyFloat → PyFloat → PyFloat
    | .finite a, .finite b => .finite (op a b)
    | _, _ => .nan

/-- An explorer, more so with a higher cue. -/
def explorer : PolicyPopulation exactLib where
  kind := .adaptive
  members := [{
    phenotype := {
      policyRef := "urn:planner:Astar"
      condition := ⟨[("exploration", .finite (1 / 4))], by decide +kernel, by decide +kernel⟩
      policyRef_ne := by decide }
    weight := .finite 1
    finite := rfl
    positive := by decide +kernel }]
  reactionNorm := some {
    slopes := [("exploration", .finite (1 / 2))]
    sorted := by decide +kernel
    unique := by decide +kernel }
  members_ne := by simp
  contract := by decide +kernel

def explorationAxis : ConditionAxis exactLib where
  axisId := "exploration"
  axisId_ne := by decide
  valid := by decide +kernel

example : ((conditionPopulation explorer (.finite 1) [explorationAxis]).toOption.map fun p =>
    p.members.map fun m => m.phenotype.condition.values) =
      some [[("exploration", .finite (3 / 4))]] := by
  decide +kernel

end GymAct.Ecology
