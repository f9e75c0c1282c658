import GymAct.PossibilityDocument
import Mathlib.Data.Finset.Dedup

/-!
# The RDF projection of a possibility graph

`combinatorial_rdf.py` : a graph is projected into triples, each part with the JSON of its dump
as `prov:value`, and read back from them. A graph of triples is a set (`Finset Triple`); a query is
answered in an order that is not part of it (`Enumeration`).
-/

namespace GymAct

/-! ## Triples -/

/-- A node of an RDF graph. A literal keeps its lexical form; the one `json.dumps` writes is
given by the document `json.loads` reads from it. -/
inductive Term
  | uri (iri : String)
  | literal (lexical : String)
  | json (document : Value)
  deriving DecidableEq, Repr

abbrev Triple := Term × Term × Term

namespace Rdf

def rdfType : Term := .uri "http://www.w3.org/1999/02/22-rdf-syntax-ns#type"

def dcterms (name : String) : Term := .uri ("http://purl.org/dc/terms/" ++ name)

def prov (name : String) : Term := .uri ("http://www.w3.org/ns/prov#" ++ name)

def skos (name : String) : Term := .uri ("http://www.w3.org/2004/02/skos/core#" ++ name)

/-- `_PROFILE`. -/
def profile : Term := .uri "urn:gymact:profile:combinatorial-maximum"

/-- `_EXECUTION_GRANT_CONCEPT`. -/
def executionGrantConcept : Term := .uri "urn:gymact:concept:execution-grant"

variable (C : Canon)

/-- `_object_uri`. -/
def objectUri (objectId : String) : Except PyError Term := do
  return .uri ("urn:gymact:possibility-object:" ++ (← C.digest (.str objectId)))

/-- `_morphism_uri`. -/
def morphismUri (morphismId : String) : Except PyError Term := do
  return .uri ("urn:gymact:possibility-morphism:" ++ (← C.digest (.str morphismId)))

/-- `_graph_uri`. -/
def graphUri (graphDigest : String) : Term := .uri ("urn:gymact:possibility-graph:" ++ graphDigest)

/-- `_concept`. -/
def concept (category value : String) : Term :=
  .uri ("urn:gymact:concept:" ++ category ++ ":" ++ value)

/-- `_declare_concept`. -/
def declareConcept (resource : Term) (notion : String) : List Triple :=
  [(resource, rdfType, skos "Concept"), (resource, skos "notation", .literal notion)]

/-- The triples of an object, whose URI is `resource`. -/
def objectTriples (root resource : Term) (item : PossibilityObject) : List Triple :=
  let kind := concept "object-kind" item.kind.value
  declareConcept kind item.kind.value ++
    [(resource, rdfType, prov "Entity"),
      (resource, prov "specializationOf", .uri item.semanticRef),
      (resource, dcterms "identifier", .literal item.objectId),
      (resource, dcterms "type", kind),
      (resource, prov "value", .json item.modelDump.sortKeys),
      (root, dcterms "hasPart", resource)] ++
    (item.revision.toList.map fun r => (resource, dcterms "hasVersion", .literal r)) ++
    (item.ontologyRefs.map fun r => (resource, dcterms "conformsTo", .uri r)) ++
    (item.evidenceRefs.map fun r => (resource, dcterms "references", .uri r))

/-- `_project_object`. -/
def projectObject (root : Term) (item : PossibilityObject) : Except PyError (List Triple) := do
  return objectTriples root (← objectUri C item.objectId) item

/-- The triples of a morphism, whose URI is `activity`. -/
def morphismTriples (root activity source target : Term) (item : PossibilityMorphism) :
    List Triple :=
  let kind := concept "morphism-kind" item.kind.value
  let phase := concept "decision-phase" item.phase.value
  let reversal := concept "reversal" item.reversal.value
  let required := item.requirements
  declareConcept kind item.kind.value ++ declareConcept phase item.phase.value ++
    declareConcept reversal item.reversal.value ++
    [(activity, rdfType, prov "Activity"),
      (activity, dcterms "identifier", .literal item.morphismId),
      (activity, dcterms "type", kind), (activity, dcterms "type", phase),
      (activity, dcterms "type", reversal),
      (activity, skos "notation", .literal item.phase.value),
      (activity, prov "used", source), (activity, prov "generated", target),
      (activity, prov "value", .json item.modelDump.sortKeys),
      (root, dcterms "hasPart", activity)] ++
    ((required.capabilityRefs ++ required.policyRefs ++ required.evidenceRefs).map fun r =>
      (activity, dcterms "requires", .uri r)) ++
    (required.requiredRevision.toList.map fun r =>
      (activity, dcterms "hasVersion", .literal r)) ++
    (if required.executionGrantRequired then
      declareConcept executionGrantConcept "execution-grant" ++
        [(activity, dcterms "requires", executionGrantConcept)]
    else []) ++
    (item.evidenceRefs.map fun r => (activity, dcterms "references", .uri r))

/-- `_project_morphism`. -/
def projectMorphism (root : Term) (item : PossibilityMorphism) :
    Except PyError (List Triple) := do
  let activity ← morphismUri C item.morphismId
  let source ← objectUri C item.sourceId
  let target ← objectUri C item.targetId
  return morphismTriples root activity source target item

/-- What `graph_to_rdf` says about the root. -/
def rootTriples (graphDigest : String) : List Triple :=
  let root := graphUri graphDigest
  [(root, rdfType, prov "Entity"), (root, dcterms "identifier", .literal graphDigest),
    (root, dcterms "type", profile)] ++ declareConcept profile "combinatorial-maximum"

/-- `graph_to_rdf`. -/
def graphToRdf (value : PossibilityGraph) : Except PyError (Finset Triple) := do
  let graphDigest ← value.graphDigest C
  let root := graphUri graphDigest
  let objects ← value.objects.mapM (projectObject C root)
  let morphisms ← value.morphisms.mapM (projectMorphism C root)
  return (rootTriples graphDigest ++ objects.flatten ++ morphisms.flatten).toFinset

/-! ## Queries -/

/-- A pattern of a query; `none` matches everything. -/
structure Pattern where
  subject : Option Term := none
  predicate : Option Term := none
  object : Option Term := none
  deriving DecidableEq, Repr

def Pattern.Matches (p : Pattern) (t : Triple) : Prop :=
  (∀ s ∈ p.subject, t.1 = s) ∧ (∀ q ∈ p.predicate, t.2.1 = q) ∧ ∀ o ∈ p.object, t.2.2 = o

instance (p : Pattern) : DecidablePred p.Matches := fun _ => inferInstanceAs (Decidable (_ ∧ _ ∧ _))

/-- The order in which a store answers each query. -/
structure Enumeration (G : Finset Triple) where
  matching : Pattern → List Triple
  nodup : ∀ p, (matching p).Nodup
  mem_iff : ∀ p t, t ∈ matching p ↔ t ∈ G ∧ p.Matches t

/-- A store that answers in the order of a list. -/
def Enumeration.ofList (l : List Triple) (h : l.Nodup) : Enumeration l.toFinset where
  matching p := l.filter p.Matches
  nodup _ := h.filter _
  mem_iff p t := by simp

namespace Enumeration

variable {G : Finset Triple} (E : Enumeration G)

/-- `graph.subjects(predicate, object)`. -/
def subjects (predicate object : Term) : List Term :=
  (E.matching { predicate, object }).map Prod.fst

/-- `graph.objects(subject, predicate)`. -/
def objects (subject predicate : Term) : List Term :=
  (E.matching { subject, predicate }).map fun t => t.2.2

/-- `graph.value(subject, predicate)`. -/
def value (subject predicate : Term) : Option Term := (E.objects subject predicate).head?

end Enumeration

/-- `json.loads(str(raw))`. -/
def loads : Term → Except PyError Value
  | .json document => .ok document
  | _ => .error ⟨"JSONDecodeError", "Expecting value"⟩

/-- `model_validate`, which raises. -/
def validated {α : Type} (model : String) : Option α → Except PyError α
  | some a => .ok a
  | none => .error ⟨"ValidationError", model⟩

variable {G : Finset Triple} (E : Enumeration G)

/-- One round of the loop over the parts. -/
def readPart (part : Term) : Except PyError (PossibilityObject ⊕ PossibilityMorphism) :=
  match E.value part (prov "value") with
  | none => .error (valueError "POSSIBILITY_RDF_PART_MISSING_PROV_VALUE")
  | some raw => do
    let payload ← loads raw
    if (part, rdfType, prov "Activity") ∈ G then
      Sum.inr <$> validated "PossibilityMorphism" (PossibilityMorphism.modelValidate payload)
    else if (part, rdfType, prov "Entity") ∈ G then
      Sum.inl <$> validated "PossibilityObject" (PossibilityObject.modelValidate payload)
    else throw (valueError "POSSIBILITY_RDF_PART_TYPE_UNSUPPORTED")

/-- The root of the graph. -/
def findRoot (graphDigest : Option String) : Except PyError Term :=
  let roots := E.subjects (dcterms "type") profile
  match graphDigest with
  | some d =>
    if graphUri d ∈ roots then .ok (graphUri d)
    else .error (valueError "POSSIBILITY_RDF_GRAPH_IDENTITY_MISMATCH")
  | none =>
    match roots with
    | [root] => .ok root
    | _ => .error (valueError "POSSIBILITY_RDF_GRAPH_ROOT_AMBIGUOUS")

/-- `rdf_to_graph`. -/
def rdfToGraph (graphDigest : Option String) : Except PyError PossibilityGraph := do
  let root ← findRoot E graphDigest
  let parts ← (E.objects root (dcterms "hasPart")).mapM (readPart E)
  let value ← PossibilityGraph.validateTopology
    { objects := parts.filterMap Sum.getLeft?, morphisms := parts.filterMap Sum.getRight? }
  let valueDigest ← value.graphDigest C
  if E.value root (dcterms "identifier") = some (.literal valueDigest) then return value
  else throw (valueError "POSSIBILITY_RDF_CONTENT_DIGEST_MISMATCH")

/-! ## What the triples say -/

/-- Texts that differ at one place. -/
theorem ne_of_getElem? {s t : String} (i : ℕ) (h : s.toList[i]? ≠ t.toList[i]?) : s ≠ t :=
  fun he => h (he ▸ rfl)

theorem concept_ne_profile (category value : String) : concept category value ≠ profile := by
  intro h
  refine ne_of_getElem? 11 ?_ (Term.uri.inj h)
  simp [String.toList_append]

theorem graphUri_ne_profile (d : String) : graphUri d ≠ profile := by
  intro h
  refine ne_of_getElem? 12 ?_ (Term.uri.inj h)
  simp [String.toList_append]

section Triples

variable {s x root resource activity source target : Term} {o : PossibilityObject}
  {m : PossibilityMorphism} {d : String}

theorem hasPart_mem_rootTriples : (s, dcterms "hasPart", x) ∉ rootTriples d := by
  simp [rootTriples, declareConcept, dcterms, rdfType, skos]

theorem hasPart_mem_objectTriples :
    (s, dcterms "hasPart", x) ∈ objectTriples root resource o ↔ s = root ∧ x = resource := by
  simp [objectTriples, declareConcept, dcterms, rdfType, skos, prov]

theorem hasPart_mem_morphismTriples :
    (s, dcterms "hasPart", x) ∈ morphismTriples root activity source target m ↔
      s = root ∧ x = activity := by
  simp [morphismTriples, declareConcept, dcterms, rdfType, skos, prov]

theorem value_mem_rootTriples : (s, prov "value", x) ∉ rootTriples d := by
  simp [rootTriples, declareConcept, dcterms, rdfType, skos, prov]

theorem value_mem_objectTriples :
    (s, prov "value", x) ∈ objectTriples root resource o ↔
      s = resource ∧ x = .json o.modelDump.sortKeys := by
  simp [objectTriples, declareConcept, dcterms, rdfType, skos, prov]

theorem value_mem_morphismTriples :
    (s, prov "value", x) ∈ morphismTriples root activity source target m ↔
      s = activity ∧ x = .json m.modelDump.sortKeys := by
  simp [morphismTriples, declareConcept, dcterms, rdfType, skos, prov]

theorem activity_mem_rootTriples : (s, rdfType, prov "Activity") ∉ rootTriples d := by
  simp [rootTriples, declareConcept, dcterms, rdfType, skos, prov]

theorem activity_mem_objectTriples :
    (s, rdfType, prov "Activity") ∉ objectTriples root resource o := by
  simp [objectTriples, declareConcept, dcterms, rdfType, skos, prov]

theorem activity_mem_morphismTriples :
    (s, rdfType, prov "Activity") ∈ morphismTriples root activity source target m ↔
      s = activity := by
  simp [morphismTriples, declareConcept, dcterms, rdfType, skos, prov]

theorem entity_mem_objectTriples :
    (resource, rdfType, prov "Entity") ∈ objectTriples root resource o := by
  simp [objectTriples]

theorem profile_mem_rootTriples :
    (s, dcterms "type", profile) ∈ rootTriples d ↔ s = graphUri d := by
  simp [rootTriples, declareConcept, dcterms, rdfType, skos]

theorem profile_mem_objectTriples :
    (s, dcterms "type", profile) ∉ objectTriples root resource o := by
  simp [objectTriples, declareConcept, dcterms, rdfType, skos, prov,
    (concept_ne_profile _ _).symm]

theorem profile_mem_morphismTriples :
    (s, dcterms "type", profile) ∉ morphismTriples root activity source target m := by
  simp [morphismTriples, declareConcept, dcterms, rdfType, skos, prov,
    (concept_ne_profile _ _).symm]

theorem identifier_mem_rootTriples :
    (s, dcterms "identifier", x) ∈ rootTriples d ↔ s = graphUri d ∧ x = .literal d := by
  simp [rootTriples, declareConcept, dcterms, rdfType, skos]

theorem identifier_mem_objectTriples :
    (s, dcterms "identifier", x) ∈ objectTriples root resource o → s = resource := by
  simp +contextual [objectTriples, declareConcept, dcterms, rdfType, skos, prov]

theorem identifier_mem_morphismTriples :
    (s, dcterms "identifier", x) ∈ morphismTriples root activity source target m → s = activity := by
  simp +contextual [morphismTriples, declareConcept, dcterms, rdfType, skos, prov]

end Triples

/-! ## A store of the triples -/

namespace Enumeration

variable {G : Finset Triple} (E : Enumeration G) {s p o : Term}

theorem mem_objects : o ∈ E.objects s p ↔ (s, p, o) ∈ G := by
  simp only [objects, List.mem_map, E.mem_iff, Pattern.Matches]
  constructor
  · rintro ⟨⟨s', p', o'⟩, ⟨hmem, hs, hp, -⟩, rfl⟩
    obtain rfl : s' = s := hs s rfl
    obtain rfl : p' = p := hp p rfl
    exact hmem
  · exact fun hmem => ⟨(s, p, o), ⟨hmem, by simp⟩, rfl⟩

theorem mem_subjects : s ∈ E.subjects p o ↔ (s, p, o) ∈ G := by
  simp only [subjects, List.mem_map, E.mem_iff, Pattern.Matches]
  constructor
  · rintro ⟨⟨s', p', o'⟩, ⟨hmem, -, hp, ho⟩, rfl⟩
    obtain rfl : p' = p := hp p rfl
    obtain rfl : o' = o := ho o rfl
    exact hmem
  · exact fun hmem => ⟨(s, p, o), ⟨hmem, by simp⟩, rfl⟩

theorem nodup_objects : (E.objects s p).Nodup := by
  refine (E.nodup _).map_on fun t ht u hu he => ?_
  obtain ⟨-, hts, htp, -⟩ := (E.mem_iff _ t).mp ht
  obtain ⟨-, hus, hup, -⟩ := (E.mem_iff _ u).mp hu
  exact Prod.ext ((hts s rfl).trans (hus s rfl).symm)
    (Prod.ext ((htp p rfl).trans (hup p rfl).symm) he)

theorem nodup_subjects : (E.subjects p o).Nodup := by
  refine (E.nodup _).map_on fun t ht u hu he => ?_
  obtain ⟨-, -, htp, hto⟩ := (E.mem_iff _ t).mp ht
  obtain ⟨-, -, hup, huo⟩ := (E.mem_iff _ u).mp hu
  exact Prod.ext he (Prod.ext ((htp p rfl).trans (hup p rfl).symm) ((hto o rfl).trans (huo o rfl).symm))

/-- A list without repetition that has one member. -/
theorem eq_singleton {l : List Term} {a : Term} (hnodup : l.Nodup) (h : ∀ x, x ∈ l ↔ x = a) :
    l = [a] :=
  List.perm_singleton.mp ((List.perm_ext_iff_of_nodup hnodup (List.nodup_singleton a)).mpr
    fun x => by rw [h x, List.mem_singleton])

theorem value_eq (h : ∀ x, (s, p, x) ∈ G ↔ x = o) : E.value s p = some o := by
  rw [value, eq_singleton E.nodup_objects fun x => E.mem_objects.trans (h x), List.head?_cons]

end Enumeration

end Rdf

end GymAct
