import GymAct.PowlAlgebra

/-!
# Content-addressed identity

`powl/identity.py`. `json.dumps` and SHA-256 are the parameter `PowlCanon`, with the order in
which a set of edges is iterated.
-/

namespace GymAct.Powl

/-- `canonical_json`, the hex SHA-256 of a text, and the order a `frozenset` is iterated in. -/
structure PowlCanon where
  canonicalJson : Value → String
  sha256 : String → String
  listing : Finset ChoiceGraphEdge → List ChoiceGraphEdge

/-- The class of an effect as the source spells it. -/
def Consequence.text : Consequence → String
  | .pure => "PURE"
  | .read => "READ"
  | .do => "DO"
  | .verify => "VERIFY"

/-- What `Atom.key` and `activity_sha256` cover. -/
def Atom.keyMaterial (a : Atom) : Value :=
  .dict [("label", .str a.label), ("action", .str a.action.identity), ("bindings", .dict a.bindings),
    ("consequence", .str a.consequence.text)]

namespace PowlCanon

variable (K : PowlCanon)

/-- `sha256` of `_canonical.py`. -/
def hash (v : Value) : String := K.sha256 (K.canonicalJson v)

/-- `activity_sha256`. -/
def activitySha256 (a : Atom) : String := K.hash a.keyMaterial

/-- `node_structure`, of a leaf. -/
def leafStructure : PowlNode → Value
  | .start => .dict [("kind", .str "Start")]
  | .finish => .dict [("kind", .str "End")]
  | .silent => .dict [("kind", .str "Silent")]
  | .atom a => .dict [("kind", .str "Atom"), ("activity", .str (K.activitySha256 a))]
  | .partialOrder .. | .choiceGraph .. => .null

/-- The identity of what `node_structure` returns. -/
def idOf (structure' : Value) : String := K.hash (.str (K.canonicalJson structure'))

/-- `_activity_of`, of a leaf. -/
def activityOf : PowlNode → String
  | .atom a => K.activitySha256 a
  | node => K.idOf (K.leafStructure node)

/-- A canonicalization to run : `Value.render`, a text standing for its own digest. -/
noncomputable def reference : PowlCanon where
  canonicalJson := fun v => v.render.toOption.getD ""
  sha256 := id
  listing := Finset.toList

end PowlCanon

end GymAct.Powl
