import GymAct.Fallible
import GymAct.PossibilityRdf

/-!
# The RDF round trip

`rdf_to_graph` collects the parts in the order they are enumerated, while the digest it checks
depends on the order of the tuples. `rdf_round_trip_iff_listed_in_order` : the graph comes back
exactly when it has a digest and its parts are enumerated in its own order.
-/

namespace GymAct

namespace Rdf

variable (C : Canon)

/-! ## The triples of a graph -/

/-- The digest of an id. -/
def idDigest (objectId : String) : String := (C.digest (.str objectId)).toOption.getD ""

/-- Digests tell ids apart. -/
def SeparatesIds : Prop := ∀ s t d, C.digest (.str s) = .ok d → C.digest (.str t) = .ok d → s = t

def objectTerm (objectId : String) : Term :=
  .uri ("urn:gymact:possibility-object:" ++ idDigest C objectId)

def morphismTerm (morphismId : String) : Term :=
  .uri ("urn:gymact:possibility-morphism:" ++ idDigest C morphismId)

/-- The triples that `graph_to_rdf` adds. -/
def graphTriples (g : PossibilityGraph) (d : String) : Finset Triple :=
  (rootTriples d ++
    (g.objects.map fun o => objectTriples (graphUri d) (objectTerm C o.objectId) o).flatten ++
    (g.morphisms.map fun m => morphismTriples (graphUri d) (morphismTerm C m.morphismId)
      (objectTerm C m.sourceId) (objectTerm C m.targetId) m).flatten).toFinset

variable {C} {g : PossibilityGraph} {d : String}

theorem digest_str (hexact : C.Exact) (s : String) : C.digest (.str s) = .ok (idDigest C s) := by
  obtain ⟨d, hd⟩ := hexact.total.digest (v := .str s) (by simp)
  rw [idDigest, hd]
  rfl

theorem objectUri_eq (hexact : C.Exact) (s : String) : objectUri C s = .ok (objectTerm C s) := by
  rw [objectUri, digest_str hexact]
  rfl

theorem morphismUri_eq (hexact : C.Exact) (s : String) :
    morphismUri C s = .ok (morphismTerm C s) := by
  rw [morphismUri, digest_str hexact]
  rfl

theorem graphToRdf_eq (hexact : C.Exact) (hd : g.graphDigest C = .ok d) :
    graphToRdf C g = .ok (graphTriples C g d) := by
  have hobjects := Fallible.mapM_eq_ok (f := projectObject C (graphUri d)) (l := g.objects)
    (g := fun o => objectTriples (graphUri d) (objectTerm C o.objectId) o) fun o _ => by
      rw [projectObject, objectUri_eq hexact]
      rfl
  have hmorphisms := Fallible.mapM_eq_ok (f := projectMorphism C (graphUri d)) (l := g.morphisms)
    (g := fun m => morphismTriples (graphUri d) (morphismTerm C m.morphismId)
      (objectTerm C m.sourceId) (objectTerm C m.targetId) m) fun m _ => by
      rw [projectMorphism, morphismUri_eq hexact, objectUri_eq hexact, objectUri_eq hexact]
      rfl
  rw [graphToRdf, hd, Fallible.ok_bind]
  dsimp only
  rw [hobjects, Fallible.ok_bind, hmorphisms, Fallible.ok_bind]
  rfl

theorem mem_graphTriples {t : Triple} :
    t ∈ graphTriples C g d ↔ t ∈ rootTriples d ∨
      (∃ o ∈ g.objects, t ∈ objectTriples (graphUri d) (objectTerm C o.objectId) o) ∨
      ∃ m ∈ g.morphisms, t ∈ morphismTriples (graphUri d) (morphismTerm C m.morphismId)
        (objectTerm C m.sourceId) (objectTerm C m.targetId) m := by
  simp only [graphTriples, List.mem_toFinset, List.mem_append, List.mem_flatten, List.mem_map,
    exists_exists_and_eq_and, or_assoc]

/-! ### Different things have different names -/

theorem SeparatesIds.digest_injective (hexact : C.Exact) (hids : SeparatesIds C) :
    Function.Injective (idDigest C) := fun s t h =>
  hids s t (idDigest C s) (digest_str hexact s) (h ▸ digest_str hexact t)

theorem objectTerm_injective (hexact : C.Exact) (hids : SeparatesIds C) :
    Function.Injective (objectTerm C) := fun _ _ h =>
  hids.digest_injective hexact (String.append_right_inj _ |>.mp (Term.uri.inj h))

theorem morphismTerm_injective (hexact : C.Exact) (hids : SeparatesIds C) :
    Function.Injective (morphismTerm C) := fun _ _ h =>
  hids.digest_injective hexact (String.append_right_inj _ |>.mp (Term.uri.inj h))

theorem objectTerm_ne_morphismTerm (s t : String) : objectTerm C s ≠ morphismTerm C t := by
  intro h
  refine ne_of_getElem? 23 ?_ (Term.uri.inj h)
  simp [String.toList_append]

theorem graphUri_ne_objectTerm (s : String) : graphUri d ≠ objectTerm C s := by
  intro h
  refine ne_of_getElem? 23 ?_ (Term.uri.inj h)
  simp [String.toList_append]

theorem graphUri_ne_morphismTerm (s : String) : graphUri d ≠ morphismTerm C s := by
  intro h
  refine ne_of_getElem? 23 ?_ (Term.uri.inj h)
  simp [String.toList_append]

/-! ### The answers to the queries -/

theorem hasPart_iff {s x : Term} :
    (s, dcterms "hasPart", x) ∈ graphTriples C g d ↔
      s = graphUri d ∧ ((∃ o ∈ g.objects, x = objectTerm C o.objectId) ∨
        ∃ m ∈ g.morphisms, x = morphismTerm C m.morphismId) := by
  simp only [mem_graphTriples, hasPart_mem_rootTriples, hasPart_mem_objectTriples,
    hasPart_mem_morphismTriples, false_or]
  constructor
  · rintro (⟨o, ho, rfl, rfl⟩ | ⟨m, hm, rfl, rfl⟩)
    · exact ⟨rfl, .inl ⟨o, ho, rfl⟩⟩
    · exact ⟨rfl, .inr ⟨m, hm, rfl⟩⟩
  · rintro ⟨rfl, ⟨o, ho, rfl⟩ | ⟨m, hm, rfl⟩⟩
    · exact .inl ⟨o, ho, rfl, rfl⟩
    · exact .inr ⟨m, hm, rfl, rfl⟩

theorem profile_iff {s : Term} :
    (s, dcterms "type", profile) ∈ graphTriples C g d ↔ s = graphUri d := by
  simp only [mem_graphTriples, profile_mem_rootTriples, profile_mem_objectTriples,
    profile_mem_morphismTriples, and_false, exists_false, or_false]

theorem identifier_iff {x : Term} :
    (graphUri d, dcterms "identifier", x) ∈ graphTriples C g d ↔ x = .literal d := by
  rw [mem_graphTriples, identifier_mem_rootTriples]
  constructor
  · rintro (⟨-, rfl⟩ | ⟨o, -, ho⟩ | ⟨m, -, hm⟩)
    · rfl
    · exact absurd (identifier_mem_objectTriples ho) (graphUri_ne_objectTerm _)
    · exact absurd (identifier_mem_morphismTriples hm) (graphUri_ne_morphismTerm _)
  · exact fun hx => .inl ⟨rfl, hx⟩

theorem value_object_iff (hexact : C.Exact) (hids : SeparatesIds C) (hg : g.Valid)
    {o : PossibilityObject} (ho : o ∈ g.objects) {x : Term} :
    (objectTerm C o.objectId, prov "value", x) ∈ graphTriples C g d ↔
      x = .json o.modelDump.sortKeys := by
  simp only [mem_graphTriples, value_mem_rootTriples, value_mem_objectTriples,
    value_mem_morphismTriples, false_or]
  constructor
  · rintro (⟨o', ho', hterm, rfl⟩ | ⟨m, -, hterm, -⟩)
    · have hid := objectTerm_injective hexact hids hterm
      rw [List.inj_on_of_nodup_map hg.objectIds ho ho' hid]
    · exact absurd hterm (objectTerm_ne_morphismTerm _ _)
  · exact fun hx => .inl ⟨o, ho, rfl, hx⟩

theorem value_morphism_iff (hexact : C.Exact) (hids : SeparatesIds C) (hg : g.Valid)
    {m : PossibilityMorphism} (hm : m ∈ g.morphisms) {x : Term} :
    (morphismTerm C m.morphismId, prov "value", x) ∈ graphTriples C g d ↔
      x = .json m.modelDump.sortKeys := by
  simp only [mem_graphTriples, value_mem_rootTriples, value_mem_objectTriples,
    value_mem_morphismTriples, false_or]
  constructor
  · rintro (⟨o, -, hterm, -⟩ | ⟨m', hm', hterm, rfl⟩)
    · exact absurd hterm.symm (objectTerm_ne_morphismTerm _ _)
    · have hid := morphismTerm_injective hexact hids hterm
      rw [List.inj_on_of_nodup_map hg.morphismIds hm hm' hid]
  · exact fun hx => .inr ⟨m, hm, rfl, hx⟩

theorem activity_object (s : String) :
    (objectTerm C s, rdfType, prov "Activity") ∉ graphTriples C g d := by
  simp only [mem_graphTriples, activity_mem_rootTriples, activity_mem_objectTriples,
    activity_mem_morphismTriples, objectTerm_ne_morphismTerm, and_false, exists_false, or_false,
    not_false_eq_true]

theorem activity_morphism {m : PossibilityMorphism} (hm : m ∈ g.morphisms) :
    (morphismTerm C m.morphismId, rdfType, prov "Activity") ∈ graphTriples C g d :=
  mem_graphTriples.mpr (.inr (.inr ⟨m, hm, activity_mem_morphismTriples.mpr rfl⟩))

theorem entity_object {o : PossibilityObject} (ho : o ∈ g.objects) :
    (objectTerm C o.objectId, rdfType, prov "Entity") ∈ graphTriples C g d :=
  mem_graphTriples.mpr (.inr (.inl ⟨o, ho, entity_mem_objectTriples⟩))

/-! ### Reading the parts -/

section Read

variable (E : Enumeration (graphTriples C g d))

theorem readPart_object (hexact : C.Exact) (hids : SeparatesIds C) (hg : g.Valid)
    {o : PossibilityObject} (ho : o ∈ g.objects) :
    readPart E (objectTerm C o.objectId) = .ok (.inl o.reread) := by
  rw [readPart, E.value_eq fun x => value_object_iff hexact hids hg ho]
  simp only [loads, Fallible.ok_bind, if_neg (activity_object (g := g) (d := d) o.objectId),
    if_pos (entity_object ho), PossibilityObject.modelValidate_sortKeys]
  rfl

theorem readPart_morphism (hexact : C.Exact) (hids : SeparatesIds C) (hg : g.Valid)
    {m : PossibilityMorphism} (hm : m ∈ g.morphisms) :
    readPart E (morphismTerm C m.morphismId) = .ok (.inr m.reread) := by
  rw [readPart, E.value_eq fun x => value_morphism_iff hexact hids hg hm]
  simp only [loads, Fallible.ok_bind, if_pos (activity_morphism hm),
    PossibilityMorphism.modelValidate_sortKeys]
  rfl

theorem findRoot_eq {given : Option String} (hgiven : given = none ∨ given = some d) :
    findRoot E given = .ok (graphUri d) := by
  have hroots : E.subjects (dcterms "type") profile = [graphUri d] :=
    Enumeration.eq_singleton E.nodup_subjects fun x => E.mem_subjects.trans profile_iff
  unfold findRoot
  rcases hgiven with rfl | rfl <;> simp [hroots]

end Read

/-- The object a part stands for. -/
def objectAt (C : Canon) (g : PossibilityGraph) (part : Term) : Option PossibilityObject :=
  g.objects.find? fun o => (objectUri C o.objectId).toOption = some part

/-- The morphism a part stands for. -/
def morphismAt (C : Canon) (g : PossibilityGraph) (part : Term) : Option PossibilityMorphism :=
  g.morphisms.find? fun m => (morphismUri C m.morphismId).toOption = some part

/-- The parts are enumerated in the order of the graph. -/
structure ListedInOrder (C : Canon) (g : PossibilityGraph) (d : String) {G : Finset Triple}
    (E : Enumeration G) : Prop where
  objects : (E.objects (graphUri d) (dcterms "hasPart")).filterMap (objectAt C g) = g.objects
  morphisms : (E.objects (graphUri d) (dcterms "hasPart")).filterMap (morphismAt C g) = g.morphisms

instance (C : Canon) (g : PossibilityGraph) (d : String) {G : Finset Triple} (E : Enumeration G) :
    Decidable (ListedInOrder C g d E) :=
  decidable_of_iff
    ((E.objects (graphUri d) (dcterms "hasPart")).filterMap (objectAt C g) = g.objects ∧
      (E.objects (graphUri d) (dcterms "hasPart")).filterMap (morphismAt C g) = g.morphisms)
    ⟨fun h => ⟨h.1, h.2⟩, fun h => ⟨h.objects, h.morphisms⟩⟩

section Parts

variable (hexact : C.Exact) (hids : SeparatesIds C) (hg : g.Valid)

include hexact hids hg

theorem objectAt_objectTerm {o : PossibilityObject} (ho : o ∈ g.objects) :
    objectAt C g (objectTerm C o.objectId) = some o := by
  unfold objectAt
  cases hfind : g.objects.find? fun o' =>
      (objectUri C o'.objectId).toOption = some (objectTerm C o.objectId) with
  | none =>
    have hne := List.find?_eq_none.mp hfind o ho
    simp [objectUri_eq hexact, Except.toOption] at hne
  | some o' =>
    have hterm := List.find?_some hfind
    simp only [objectUri_eq hexact, Except.toOption, Option.some.injEq, decide_eq_true_eq] at hterm
    have hid := objectTerm_injective hexact hids hterm
    rw [List.inj_on_of_nodup_map hg.objectIds (List.mem_of_find?_eq_some hfind) ho hid]

theorem morphismAt_morphismTerm {m : PossibilityMorphism} (hm : m ∈ g.morphisms) :
    morphismAt C g (morphismTerm C m.morphismId) = some m := by
  unfold morphismAt
  cases hfind : g.morphisms.find? fun m' =>
      (morphismUri C m'.morphismId).toOption = some (morphismTerm C m.morphismId) with
  | none =>
    have hne := List.find?_eq_none.mp hfind m hm
    simp [morphismUri_eq hexact, Except.toOption] at hne
  | some m' =>
    have hterm := List.find?_some hfind
    simp only [morphismUri_eq hexact, Except.toOption, Option.some.injEq, decide_eq_true_eq] at hterm
    have hid := morphismTerm_injective hexact hids hterm
    rw [List.inj_on_of_nodup_map hg.morphismIds (List.mem_of_find?_eq_some hfind) hm hid]

omit hids hg in
theorem objectAt_morphismTerm (s : String) : objectAt C g (morphismTerm C s) = none := by
  refine List.find?_eq_none.mpr fun o _ => ?_
  simp [objectUri_eq hexact, Except.toOption, objectTerm_ne_morphismTerm]

omit hids hg in
theorem morphismAt_objectTerm (s : String) : morphismAt C g (objectTerm C s) = none := by
  refine List.find?_eq_none.mpr fun m _ => ?_
  simp [morphismUri_eq hexact, Except.toOption, (objectTerm_ne_morphismTerm _ _).symm]

/-- The parts are read in the order they are enumerated. -/
theorem mapM_readPart (E : Enumeration (graphTriples C g d)) : ∀ {terms : List Term},
    (∀ x ∈ terms, (∃ o ∈ g.objects, x = objectTerm C o.objectId) ∨
      ∃ m ∈ g.morphisms, x = morphismTerm C m.morphismId) →
    ∃ parts, terms.mapM (readPart E) = .ok parts ∧
      parts.filterMap Sum.getLeft? = (terms.filterMap (objectAt C g)).map PossibilityObject.reread ∧
      parts.filterMap Sum.getRight? =
        (terms.filterMap (morphismAt C g)).map PossibilityMorphism.reread
  | [], _ => ⟨[], rfl, rfl, rfl⟩
  | x :: terms, hterms => by
    obtain ⟨parts, hparts, hleft, hright⟩ :=
      mapM_readPart E fun y hy => hterms y (List.mem_cons_of_mem _ hy)
    rw [List.mapM_cons]
    rcases hterms x List.mem_cons_self with ⟨o, ho, rfl⟩ | ⟨m, hm, rfl⟩
    · refine ⟨.inl o.reread :: parts, by
        rw [readPart_object E hexact hids hg ho, hparts]; rfl, ?_, ?_⟩
      · simp [objectAt_objectTerm hexact hids hg ho, hleft]
      · rw [List.filterMap_cons_none rfl, hright,
          List.filterMap_cons_none (morphismAt_objectTerm hexact _)]
    · refine ⟨.inr m.reread :: parts, by
        rw [readPart_morphism E hexact hids hg hm, hparts]; rfl, ?_, ?_⟩
      · rw [List.filterMap_cons_none rfl, hleft,
          List.filterMap_cons_none (objectAt_morphismTerm hexact _)]
      · simp [morphismAt_morphismTerm hexact hids hg hm, hright]

/-- The graph that is read, before it is checked. -/
def readGraph (C : Canon) (g : PossibilityGraph) (terms : List Term) : PossibilityGraph where
  objects := (terms.filterMap (objectAt C g)).map PossibilityObject.reread
  morphisms := (terms.filterMap (morphismAt C g)).map PossibilityMorphism.reread

theorem rdfToGraph_eq (E : Enumeration (graphTriples C g d)) {given : Option String}
    (hgiven : given = none ∨ given = some d) :
    rdfToGraph C E given = (do
      let value ← (readGraph C g (E.objects (graphUri d) (dcterms "hasPart"))).validateTopology
      let valueDigest ← value.graphDigest C
      if d = valueDigest then return value
      else throw (valueError "POSSIBILITY_RDF_CONTENT_DIGEST_MISMATCH")) := by
  have hterms : ∀ x ∈ E.objects (graphUri d) (dcterms "hasPart"),
      (∃ o ∈ g.objects, x = objectTerm C o.objectId) ∨
        ∃ m ∈ g.morphisms, x = morphismTerm C m.morphismId := fun x hx =>
    (hasPart_iff.mp (E.mem_objects.mp hx)).2
  obtain ⟨parts, hparts, hleft, hright⟩ := mapM_readPart hexact hids hg E hterms
  have hidentifier : E.value (graphUri d) (dcterms "identifier") = some (.literal d) :=
    E.value_eq fun x => identifier_iff
  rw [rdfToGraph, findRoot_eq E hgiven, Fallible.ok_bind, hparts, Fallible.ok_bind, hleft, hright,
    hidentifier]
  simp only [Option.some.injEq, Term.literal.injEq]
  rfl

end Parts

/-! ## What is equal, and has one digest -/

theorem pyEq_ofOption (o : Option String) : (Value.ofOption o).pyEq (.ofOption o) = true :=
  Value.pyEq_self (Value.isCanonical_ofOption o) (keysUnique_ofOption o)

theorem pyEq_ofStrings (xs : List String) : (Value.ofStrings xs).pyEq (.ofStrings xs) = true :=
  Value.pyEq_self (Value.isCanonical_ofStrings xs) (keysUnique_ofStrings xs)

theorem pyEq_rereadAttributes {attributes : Payload}
    (hcanon : (Value.dict attributes).isCanonical = true)
    (hkeys : (Value.dict attributes).keysUnique = true) :
    (Value.dict (rereadAttributes attributes)).pyEq (.dict attributes) = true := by
  rw [rereadAttributes, ← Value.sortKeys_dict]
  exact Value.pyEq_sortKeys hcanon hkeys

theorem pyEq_reread_object {o : PossibilityObject}
    (hcanon : (Value.dict o.attributes).isCanonical = true)
    (hkeys : (Value.dict o.attributes).keysUnique = true) :
    o.reread.modelDump.pyEq o.modelDump = true := by
  have hattributes := pyEq_rereadAttributes hcanon hkeys
  have hstr (s : String) : (Value.str s).pyEq (.str s) = true := by simp [Value.pyEq]
  rw [PossibilityObject.modelDump, PossibilityObject.modelDump, Value.pyEq]
  simp [Value.pyEqItems, List.lookup_cons, List.lookup_nil, PossibilityObject.reread, hattributes, hstr, pyEq_ofOption,
    pyEq_ofStrings]

theorem pyEq_reread_morphism {m : PossibilityMorphism}
    (hcanon : (Value.dict m.attributes).isCanonical = true)
    (hkeys : (Value.dict m.attributes).keysUnique = true) :
    m.reread.modelDump.pyEq m.modelDump = true := by
  have hattributes := pyEq_rereadAttributes hcanon hkeys
  have hstr (s : String) : (Value.str s).pyEq (.str s) = true := by simp [Value.pyEq]
  have hrequirements : m.requirements.modelDump.pyEq m.requirements.modelDump = true :=
    Value.pyEq_self (by simp [MorphismRequirements.modelDump])
      (by simp [MorphismRequirements.modelDump, Value.keysUnique, Value.keysUniqueItems,
        keysUnique_ofOption, keysUnique_ofStrings])
  have hobjectives : m.objectives.modelDump.pyEq m.objectives.modelDump = true :=
    Value.pyEq_self (by simp)
      (by simp [ObjectiveVector.modelDump, Value.keysUnique, Value.keysUniqueItems])
  rw [PossibilityMorphism.modelDump, PossibilityMorphism.modelDump, Value.pyEq]
  simp [Value.pyEqItems, List.lookup_cons, List.lookup_nil, PossibilityMorphism.reread, hattributes, hstr, hrequirements,
    hobjectives, pyEq_ofStrings]

/-- A graph with its attributes as they are read back. -/
def rereadGraph (g : PossibilityGraph) : PossibilityGraph where
  objects := g.objects.map PossibilityObject.reread
  morphisms := g.morphisms.map PossibilityMorphism.reread

theorem isCanonical_modelDump_iff :
    g.modelDump.isCanonical = true ↔
      (∀ o ∈ g.objects, (Value.dict o.attributes).isCanonical = true) ∧
        ∀ m ∈ g.morphisms, (Value.dict m.attributes).isCanonical = true := by
  have hobject (o : PossibilityObject) :
      o.modelDump.isCanonical = (Value.dict o.attributes).isCanonical := by
    simp [PossibilityObject.modelDump]
  have hmorphism (m : PossibilityMorphism) :
      m.modelDump.isCanonical = (Value.dict m.attributes).isCanonical := by
    simp [PossibilityMorphism.modelDump, MorphismRequirements.modelDump]
  rw [PossibilityGraph.modelDump, Value.isCanonical_dict, Value.isCanonicalItems_cons,
    Value.isCanonicalItems_cons, Value.isCanonicalItems_nil, Bool.and_true, Bool.and_eq_true,
    Value.isCanonical_list_iff, Value.isCanonical_list_iff]
  simp only [List.forall_mem_map, hobject, hmorphism]

theorem keysUnique_list_iff (items : List Value) :
    (Value.list items).keysUnique = true ↔ ∀ v ∈ items, v.keysUnique = true := by
  rw [Value.keysUnique]
  induction items with
  | nil => simp [Value.keysUniqueList]
  | cons v items ih => simp [Value.keysUniqueList, ih]

theorem keysUnique_modelDump (h : g.HasDicts) : g.modelDump.keysUnique = true := by
  have hobjects := (keysUnique_list_iff (g.objects.map PossibilityObject.modelDump)).mpr
    (List.forall_mem_map.mpr fun o ho => PossibilityObject.keysUnique_modelDump (h.objects o ho))
  have hmorphisms := (keysUnique_list_iff (g.morphisms.map PossibilityMorphism.modelDump)).mpr
    (List.forall_mem_map.mpr fun m hm => PossibilityMorphism.keysUnique_modelDump (h.morphisms m hm))
  rw [PossibilityGraph.modelDump, Value.keysUnique_dict_iff]
  simp [Value.keysUniqueItems, hobjects, hmorphisms]

theorem hasDicts_rereadGraph (h : g.HasDicts) : (rereadGraph g).HasDicts where
  objects := by
    refine List.forall_mem_map.mpr fun o ho => ?_
    have hkeys := Value.keysUnique_sortKeys (h.objects o ho)
    rwa [Value.sortKeys_dict] at hkeys
  morphisms := by
    refine List.forall_mem_map.mpr fun m hm => ?_
    have hkeys := Value.keysUnique_sortKeys (h.morphisms m hm)
    rwa [Value.sortKeys_dict] at hkeys

theorem isCanonical_rereadGraph (h : g.modelDump.isCanonical = true) :
    (rereadGraph g).modelDump.isCanonical = true := by
  obtain ⟨hobjects, hmorphisms⟩ := isCanonical_modelDump_iff.mp h
  refine isCanonical_modelDump_iff.mpr
    ⟨List.forall_mem_map.mpr fun o ho => ?_, List.forall_mem_map.mpr fun m hm => ?_⟩
  · have hcanon := Value.isCanonical_sortKeys (hobjects o ho)
    rwa [Value.sortKeys_dict] at hcanon
  · have hcanon := Value.isCanonical_sortKeys (hmorphisms m hm)
    rwa [Value.sortKeys_dict] at hcanon

theorem rereadAttributes_rereadAttributes (attributes : Payload) :
    Payload.sorted (Value.sortKeysItems (rereadAttributes attributes)) =
      Payload.sorted (Value.sortKeysItems attributes) := by
  rw [rereadAttributes, Value.sortKeysItems_sorted, Payload.sorted_sorted,
    Value.sortKeysItems_sortKeysItems]

theorem sortKeys_rereadGraph (g : PossibilityGraph) :
    (rereadGraph g).modelDump.sortKeys = g.modelDump.sortKeys := by
  have hobject (o : PossibilityObject) : o.reread.modelDump.sortKeys = o.modelDump.sortKeys := by
    simp only [PossibilityObject.modelDump, Value.sortKeys_dict, Value.sortKeysItems,
      PossibilityObject.reread, rereadAttributes_rereadAttributes]
  have hmorphism (m : PossibilityMorphism) :
      m.reread.modelDump.sortKeys = m.modelDump.sortKeys := by
    simp only [PossibilityMorphism.modelDump, Value.sortKeys_dict, Value.sortKeysItems,
      PossibilityMorphism.reread, rereadAttributes_rereadAttributes]
  simp only [PossibilityGraph.modelDump, rereadGraph, Value.sortKeys_dict, Value.sortKeysItems,
    Value.sortKeys, Value.sortKeysList_eq, List.map_map, Function.comp_def, hobject, hmorphism]

/-- Reading back does not change the digest. -/
theorem graphDigest_rereadGraph (hsorts : C.SortsKeys) (hdicts : g.HasDicts)
    (hcanon : g.modelDump.isCanonical = true) :
    (rereadGraph g).graphDigest C = g.graphDigest C := by
  refine Canon.digest_congr ?_
  have hread := hsorts _ (isCanonical_rereadGraph hcanon) (keysUnique_modelDump
    (hasDicts_rereadGraph hdicts))
  have hown := hsorts _ hcanon (keysUnique_modelDump hdicts)
  rw [sortKeys_rereadGraph] at hread
  exact hread.symm.trans hown

theorem pyEqList_map {α : Type} {write : α → Value} {read : α → α} : ∀ {items : List α},
    (∀ a ∈ items, (write (read a)).pyEq (write a) = true) →
      Value.pyEqList ((items.map read).map write) (items.map write) = true
  | [], _ => by simp [Value.pyEqList]
  | a :: items, h => by
    have hrest := pyEqList_map fun a' ha' => h a' (List.mem_cons_of_mem _ ha')
    simp only [List.map_cons, Value.pyEqList, h a List.mem_cons_self, hrest, Bool.and_self]

theorem pyEq_rereadGraph (hdicts : g.HasDicts) (hcanon : g.modelDump.isCanonical = true) :
    (rereadGraph g).modelDump.pyEq g.modelDump = true := by
  obtain ⟨hobjects, hmorphisms⟩ := isCanonical_modelDump_iff.mp hcanon
  have hobjects : Value.pyEqList
      ((g.objects.map PossibilityObject.reread).map PossibilityObject.modelDump)
      (g.objects.map PossibilityObject.modelDump) = true :=
    pyEqList_map fun o ho => pyEq_reread_object (hobjects o ho) (hdicts.objects o ho)
  have hmorphisms : Value.pyEqList
      ((g.morphisms.map PossibilityMorphism.reread).map PossibilityMorphism.modelDump)
      (g.morphisms.map PossibilityMorphism.modelDump) = true :=
    pyEqList_map fun m hm => pyEq_reread_morphism (hmorphisms m hm) (hdicts.morphisms m hm)
  simp only [PossibilityGraph.modelDump, rereadGraph]
  simp [-List.map_map, Value.pyEq, Value.pyEqItems, List.lookup_cons, List.lookup_nil, hobjects, hmorphisms]

/-! ## The round trip -/

theorem objectId_of_pyEq {o p : PossibilityObject} (h : o.modelDump.pyEq p.modelDump = true) :
    o.objectId = p.objectId := by
  simp only [PossibilityObject.modelDump, Value.pyEq, Value.pyEqItems, List.lookup_cons, List.lookup_nil,
    beq_self_eq_true, Bool.and_eq_true, beq_iff_eq] at h
  exact h.2.1

theorem morphismId_of_pyEq {m n : PossibilityMorphism} (h : m.modelDump.pyEq n.modelDump = true) :
    m.morphismId = n.morphismId := by
  simp only [PossibilityMorphism.modelDump, Value.pyEq, Value.pyEqItems, List.lookup_cons, List.lookup_nil,
    beq_self_eq_true, Bool.and_eq_true, beq_iff_eq] at h
  exact h.2.1

theorem map_eq_of_pyEqList {α : Type} {write : α → Value} {name : α → String}
    (hname : ∀ a b, (write a).pyEq (write b) = true → name a = name b) :
    ∀ {as bs : List α}, Value.pyEqList (as.map write) (bs.map write) = true →
      as.map name = bs.map name
  | [], [], _ => rfl
  | [], _ :: _, h | _ :: _, [], h => by simp [Value.pyEqList] at h
  | a :: as, b :: bs, h => by
    rw [List.map_cons, List.map_cons, Value.pyEqList, Bool.and_eq_true] at h
    rw [List.map_cons, List.map_cons, hname a b h.1, map_eq_of_pyEqList hname h.2]

/-- Equal graphs name their objects and morphisms in one order. -/
theorem ids_of_pyEq {g h : PossibilityGraph} (heq : g.modelDump.pyEq h.modelDump = true) :
    g.objects.map PossibilityObject.objectId = h.objects.map PossibilityObject.objectId ∧
      g.morphisms.map PossibilityMorphism.morphismId =
        h.morphisms.map PossibilityMorphism.morphismId := by
  simp [PossibilityGraph.modelDump, Value.pyEq, Value.pyEqItems, List.lookup_cons, List.lookup_nil] at heq
  exact ⟨map_eq_of_pyEqList (fun _ _ => objectId_of_pyEq) heq.1,
    map_eq_of_pyEqList (fun _ _ => morphismId_of_pyEq) heq.2⟩

/-- Members of a list with distinct keys are told apart by the keys. -/
theorem eq_of_map_eq {α κ : Type} {key : α → κ} {items : List α} (hnodup : (items.map key).Nodup) :
    ∀ {as bs : List α}, as ⊆ items → bs ⊆ items → as.map key = bs.map key → as = bs
  | [], [], _, _, _ => rfl
  | [], _ :: _, _, _, h | _ :: _, [], _, _, h => by simp at h
  | a :: as, b :: bs, ha, hb, h => by
    obtain ⟨hab, hrest⟩ := List.cons.inj h
    rw [List.inj_on_of_nodup_map hnodup (ha List.mem_cons_self) (hb List.mem_cons_self) hab,
      eq_of_map_eq hnodup (fun _ hx => ha (List.mem_cons_of_mem _ hx))
        (fun _ hx => hb (List.mem_cons_of_mem _ hx)) hrest]

theorem validateTopology_eq {g h : PossibilityGraph} (heq : g.validateTopology = .ok h) : g = h := by
  unfold PossibilityGraph.validateTopology at heq
  dsimp only at heq
  split_ifs at heq
  exact Except.ok.inj heq

theorem rereadGraph_valid (hg : g.Valid) : (rereadGraph g).Valid := by
  have hobjects : (rereadGraph g).objects.map PossibilityObject.objectId =
      g.objects.map PossibilityObject.objectId := List.map_map
  have hmorphisms : (rereadGraph g).morphisms.map PossibilityMorphism.morphismId =
      g.morphisms.map PossibilityMorphism.morphismId := List.map_map
  refine ⟨hobjects ▸ hg.objectIds, hmorphisms ▸ hg.morphismIds, fun edge hedge => ?_⟩
  obtain ⟨m, hm, rfl⟩ := List.mem_map.mp hedge
  rw [hobjects]
  exact hg.endpoints m hm

/-- What is read from a store of the triples, and whether it is the graph. -/
theorem rdfToGraph_iff (hexact : C.Exact) (hsorts : C.SortsKeys) (hids : SeparatesIds C)
    (hg : g.Valid) (hdicts : g.HasDicts) (hd : g.graphDigest C = .ok d)
    (E : Enumeration (graphTriples C g d)) {given : Option String}
    (hgiven : given = none ∨ given = some d) :
    (∃ g', rdfToGraph C E given = .ok g' ∧ g'.modelDump.pyEq g.modelDump = true ∧
      g'.graphDigest C = g.graphDigest C) ↔ ListedInOrder C g d E := by
  have hcanon : g.modelDump.isCanonical = true := by
    refine (hexact _).mp ?_
    unfold PossibilityGraph.graphDigest Canon.digest Canon.canonicalBytes at hd
    cases hb : C.dumps g.modelDump with
    | ok b => exact ⟨b, rfl⟩
    | error e => simp [hb, Except.map] at hd
  rw [rdfToGraph_eq hexact hids hg E hgiven]
  constructor
  · rintro ⟨g', hreturns, heq, -⟩
    obtain ⟨value, hvalue, hrest⟩ := Fallible.bind_eq_ok.mp hreturns
    obtain ⟨_, -, hcheck⟩ := Fallible.bind_eq_ok.mp hrest
    obtain rfl : value = g' := by
      split at hcheck <;> cases hcheck
      rfl
    obtain rfl := validateTopology_eq hvalue
    obtain ⟨hobjects, hmorphisms⟩ := ids_of_pyEq heq
    constructor
    · refine eq_of_map_eq hg.objectIds (fun o ho => ?_) (List.Subset.refl _) ?_
      · obtain ⟨x, -, hx⟩ := List.mem_filterMap.mp ho
        exact List.mem_of_find?_eq_some hx
      · simpa [readGraph, Function.comp_def, PossibilityObject.reread] using hobjects
    · refine eq_of_map_eq hg.morphismIds (fun m hm => ?_) (List.Subset.refl _) ?_
      · obtain ⟨x, -, hx⟩ := List.mem_filterMap.mp hm
        exact List.mem_of_find?_eq_some hx
      · simpa [readGraph, Function.comp_def, PossibilityMorphism.reread] using hmorphisms
  · rintro ⟨hobjects, hmorphisms⟩
    have hread : readGraph C g (E.objects (graphUri d) (dcterms "hasPart")) = rereadGraph g := by
      rw [readGraph, hobjects, hmorphisms, rereadGraph]
    have hdigest := graphDigest_rereadGraph hsorts hdicts hcanon
    refine ⟨rereadGraph g, ?_, pyEq_rereadGraph hdicts hcanon, hdigest⟩
    rw [hread, (PossibilityGraph.validateTopology_ok_iff _).mpr (rereadGraph_valid hg),
      Fallible.ok_bind, hdigest, hd, Fallible.ok_bind, if_pos rfl]
    rfl

/-- A character in a JSON string. -/
def escaped (c : Char) : List Char :=
  if c = '"' then ['\\', '"'] else if c = '\\' then ['\\', '\\'] else [c]

theorem toList_jsonString (s : String) :
    (jsonString s).toList = '"' :: (s.toList.flatMap escaped ++ ['"']) := by
  have hescaped (c : Char) : (if c = '"' then "\\\"" else if c = '\\' then "\\\\"
      else c.toString).toList = escaped c := by
    unfold escaped
    split_ifs <;> simp
  simp only [jsonString, String.toList_append, String.toList_join, List.flatMap_map, hescaped]
  rfl

/-- No code of a character begins another. -/
theorem escaped_append {c c' : Char} {r r' : List Char} (h : escaped c ++ r = escaped c' ++ r') :
    c = c' ∧ r = r' := by
  unfold escaped at h
  split_ifs at h <;> grind

theorem flatMap_escaped_injective : ∀ {l l' : List Char},
    l.flatMap escaped = l'.flatMap escaped → l = l'
  | [], [], _ => rfl
  | [], c :: l', h | c :: l', [], h => by
    have hne : escaped c ≠ [] := by
      unfold escaped
      split_ifs <;> simp
    simp [hne] at h
  | c :: l, c' :: l', h => by
    rw [List.flatMap_cons, List.flatMap_cons] at h
    obtain ⟨hc, hl⟩ := escaped_append h
    rw [hc, flatMap_escaped_injective hl]

theorem reference_separatesIds : SeparatesIds .reference := by
  intro s t d hs ht
  have hbytes := Canon.reference_collisionFree.bytes_eq hs ht
  simp only [Canon.canonicalBytes, Canon.reference, Value.render, Except.map, Except.ok.injEq] at hbytes
  have hutf8 : (jsonString s).toUTF8 = (jsonString t).toUTF8 :=
    ByteArray.ext (Array.toList_inj.mp hbytes)
  have htext : jsonString s = jsonString t := by
    exact String.toByteArray_inj.mp hutf8
  have hlist := congrArg String.toList htext
  rw [toList_jsonString, toList_jsonString] at hlist
  have hmiddle := List.append_cancel_right (List.cons.inj hlist).2
  exact String.toList_inj.mp (flatMap_escaped_injective hmiddle)

/-- The digest of a graph by the reference canonicalization. -/
def sampleDigest (g : PossibilityGraph) : String := (g.graphDigest .reference).toOption.getD ""

theorem graphDigest_eq_sampleDigest {g : PossibilityGraph}
    (h : (g.graphDigest .reference).isOk = true) :
    g.graphDigest .reference = .ok (sampleDigest g) := by
  unfold sampleDigest
  cases hd : g.graphDigest .reference with
  | ok d => rfl
  | error e =>
    rw [hd] at h
    cases h

/-- The triples of a graph of objects, in the order they are added. -/
def added (g : PossibilityGraph) : List Triple :=
  (rootTriples (sampleDigest g) ++ (g.objects.map fun o =>
    objectTriples (graphUri (sampleDigest g)) (objectTerm .reference o.objectId) o).flatten).dedup

theorem added_nodup (g : PossibilityGraph) : (added g).Nodup := List.nodup_dedup _

theorem graphToRdf_added {g : PossibilityGraph} (hmorphisms : g.morphisms = [])
    (hd : g.graphDigest .reference = .ok (sampleDigest g)) :
    graphToRdf .reference g = .ok (added g).toFinset := by
  rw [graphToRdf_eq Canon.reference_exact hd]
  congr 1
  ext t
  simp [graphTriples, added, hmorphisms]

/-- A plan and an action. -/
def twoObjects : PossibilityGraph where
  objects := [PossibilityGraph.draftPlan, PossibilityGraph.plannedAction]

/-- Their triples, those that were added last first. -/
def lastFirst : Enumeration (added twoObjects).reverse.toFinset :=
  .ofList (added twoObjects).reverse (List.nodup_reverse.mpr (added_nodup _))

end Rdf

end GymAct
