import GymAct.Evidence
import GymAct.Fallible
import GymAct.PossibilityRdf

/-!
# The triples of the evidence

`evidence_graph` of `evidence.py`, of records without verifications : the triples of each receipt,
and of the selection it is bound to. The references of a receipt to its subject, its capability and
its authority evidence are objects of one predicate, `prov:used`.
-/

namespace GymAct

namespace Rdf

variable (C : Canon)

/-- An optional field in an f-string, or as a literal. -/
def formatted (field : Option String) : String := field.getD "None"

/-- `receipt_ref`. -/
def receiptRef (receipt : Receipt) : Term := .uri ("urn:gymact:receipt:" ++ receipt.receiptId)

/-- `activity_ref`. -/
def activityRef (receipt : Receipt) : Term := .uri ("urn:gymact:activity:" ++ receipt.receiptId)

/-- `episode_ref`. -/
def episodeRef (receipt : Receipt) : Term := .uri ("urn:gymact:episode:" ++ receipt.episodeId)

/-- The triples of the selection of a receipt, whose morphism's id has the digest
`morphismDigest`. -/
def selectionTriples (receipt : Receipt) (selectionDigest morphismDigest : String) : List Triple :=
  let selection : Term := .uri ("urn:gymact:selection:" ++ selectionDigest)
  let graph := graphUri (formatted receipt.possibilityGraphDigest)
  let exploration : Term :=
    .uri ("urn:gymact:possibility-exploration:" ++ formatted receipt.possibilityExplorationDigest)
  let path : Term := .uri ("urn:gymact:possibility-path:" ++ formatted receipt.possibilityPathId)
  let morphism : Term := .uri ("urn:gymact:possibility-morphism:" ++ morphismDigest)
  let identifier := dcterms "identifier"
  [(selection, rdfType, prov "Entity"), (selection, identifier, .literal selectionDigest),
    (graph, rdfType, prov "Entity"),
    (graph, identifier, .literal (formatted receipt.possibilityGraphDigest)),
    (exploration, rdfType, prov "Entity"),
    (exploration, identifier, .literal (formatted receipt.possibilityExplorationDigest)),
    (exploration, prov "wasDerivedFrom", graph), (path, rdfType, prov "Entity"),
    (path, identifier, .literal (formatted receipt.possibilityPathId)),
    (morphism, rdfType, prov "Entity"),
    (morphism, identifier, .literal (formatted receipt.possibilityMorphismId)),
    (receiptRef receipt, prov "wasDerivedFrom", selection),
    (selection, dcterms "references", graph), (selection, dcterms "references", exploration),
    (selection, dcterms "references", path), (selection, dcterms "references", morphism)] ++
    receipt.selectionBasisRefs.map fun basisRef =>
      (selection, prov "wasDerivedFrom", .uri basisRef)

/-- `_project_combinatorial_selection`. -/
def projectCombinatorialSelection (receipt : Receipt) : Except PyError (List Triple) :=
  match receipt.selectionDigest with
  | none => .ok []
  | some selectionDigest => do
    let morphismDigest ← C.digest (.ofOption receipt.possibilityMorphismId)
    return selectionTriples receipt selectionDigest morphismDigest

/-- The references that the activity of a receipt used; an empty one counts as none. -/
def usedRefs (receipt : Receipt) : List String :=
  ([receipt.subjectRef, receipt.capabilityRef, receipt.authorityEvidenceRef].filterMap id).filter
    (· ≠ "")

/-- The triples of a record, but for its selection. -/
def recordTriples (record : EvidenceRecord) : List Triple :=
  let receipt := record.receipt
  [(receiptRef receipt, rdfType, prov "Entity"), (activityRef receipt, rdfType, prov "Activity"),
    (episodeRef receipt, rdfType, prov "Activity"),
    (receiptRef receipt, prov "wasGeneratedBy", activityRef receipt),
    (activityRef receipt, prov "wasInformedBy", episodeRef receipt),
    (receiptRef receipt, dcterms "identifier", .literal record.recordDigest),
    (receiptRef receipt, dcterms "type", .literal receipt.standing.value),
    (activityRef receipt, dcterms "type", .literal receipt.operation.value)] ++
    (usedRefs receipt).map fun ref => (activityRef receipt, prov "used", .uri ref)

/-- The body of the loop of `evidence_graph`. -/
def projectRecord (record : EvidenceRecord) : Except PyError (List Triple) := do
  let selection ← projectCombinatorialSelection C record.receipt
  return recordTriples record ++ selection

/-- `evidence_graph`. -/
def evidenceGraph (records : List EvidenceRecord) : Except PyError (Finset Triple) := do
  let triples ← records.mapM (projectRecord C)
  return triples.flatten.toFinset

/-! ## The triples of a graph -/

variable {C} {records : List EvidenceRecord} {g : Finset Triple} {s x : Term}

theorem activityRef_inj {a b : Receipt} : activityRef a = activityRef b ↔ a.receiptId = b.receiptId := by
  simp [activityRef]

theorem receiptRef_inj {a b : Receipt} : receiptRef a = receiptRef b ↔ a.receiptId = b.receiptId := by
  simp [receiptRef]

theorem receiptRef_ne_activityRef (a b : Receipt) : receiptRef a ≠ activityRef b := by
  intro h
  refine ne_of_getElem? 11 ?_ (Term.uri.inj h)
  simp [String.toList_append]

/-- The predicates of the triples of a selection. -/
def selectionPredicates : List Term :=
  [rdfType, dcterms "identifier", dcterms "references", prov "wasDerivedFrom"]

theorem predicate_of_mem_selection {receipt : Receipt} {triples : List Triple}
    (h : projectCombinatorialSelection C receipt = .ok triples) :
    ∀ t ∈ triples, t.2.1 ∈ selectionPredicates := by
  unfold projectCombinatorialSelection at h
  split at h
  · obtain rfl := Except.ok.inj h
    exact fun t ht => absurd ht List.not_mem_nil
  · obtain ⟨morphismDigest, -, h⟩ := Fallible.bind_eq_ok.mp h
    obtain rfl := Except.ok.inj h
    simp only [selectionTriples, List.forall_mem_append, List.forall_mem_cons, List.forall_mem_map]
    simp [selectionPredicates]

theorem recordTriples_subset (h : evidenceGraph C records = .ok g) {record : EvidenceRecord}
    (hrecord : record ∈ records) {t : Triple} (ht : t ∈ recordTriples record) : t ∈ g := by
  obtain ⟨parts, hparts, h⟩ := Fallible.bind_eq_ok.mp h
  obtain rfl := Except.ok.inj h
  obtain ⟨part, hpart, hproject⟩ := Fallible.exists_of_mapM hparts record hrecord
  obtain ⟨selection, -, hproject⟩ := Fallible.bind_eq_ok.mp hproject
  obtain rfl := Except.ok.inj hproject
  exact List.mem_toFinset.mpr (List.mem_flatten.mpr ⟨_, hpart, List.mem_append_left _ ht⟩)

/-- A triple whose predicate is none of a selection's comes from a receipt. -/
theorem mem_evidenceGraph (h : evidenceGraph C records = .ok g) {t : Triple}
    (ht : t.2.1 ∉ selectionPredicates) :
    t ∈ g ↔ ∃ record ∈ records, t ∈ recordTriples record := by
  refine ⟨fun hmem => ?_, fun ⟨record, hrecord, hmem⟩ => recordTriples_subset h hrecord hmem⟩
  obtain ⟨parts, hparts, h⟩ := Fallible.bind_eq_ok.mp h
  obtain rfl := Except.ok.inj h
  obtain ⟨part, hpart, hmem⟩ := List.mem_flatten.mp (List.mem_toFinset.mp hmem)
  obtain ⟨record, hrecord, hproject⟩ := Fallible.exists_of_mem_mapM hparts part hpart
  obtain ⟨selection, hselection, hproject⟩ := Fallible.bind_eq_ok.mp hproject
  obtain rfl := Except.ok.inj hproject
  rcases List.mem_append.mp hmem with hmem | hmem
  · exact ⟨record, hrecord, hmem⟩
  · exact absurd (predicate_of_mem_selection hselection t hmem) ht

theorem activity_mem_evidenceGraph (h : evidenceGraph C records = .ok g) {record : EvidenceRecord}
    (hrecord : record ∈ records) : (activityRef record.receipt, rdfType, prov "Activity") ∈ g :=
  recordTriples_subset h hrecord (by simp [recordTriples])

theorem wasGeneratedBy_mem_evidenceGraph (h : evidenceGraph C records = .ok g) :
    (s, prov "wasGeneratedBy", x) ∈ g ↔
      ∃ record ∈ records, s = receiptRef record.receipt ∧ x = activityRef record.receipt := by
  rw [mem_evidenceGraph h (by simp [selectionPredicates, rdfType, dcterms, prov])]
  simp [recordTriples, rdfType, dcterms, prov]

theorem type_mem_evidenceGraph (h : evidenceGraph C records = .ok g) :
    (s, dcterms "type", x) ∈ g ↔ ∃ record ∈ records,
      s = receiptRef record.receipt ∧ x = .literal record.receipt.standing.value ∨
        s = activityRef record.receipt ∧ x = .literal record.receipt.operation.value := by
  rw [mem_evidenceGraph h (by simp [selectionPredicates, rdfType, dcterms, prov])]
  simp [recordTriples, rdfType, dcterms, prov]

theorem used_mem_evidenceGraph (h : evidenceGraph C records = .ok g) :
    (s, prov "used", x) ∈ g ↔ ∃ record ∈ records,
      ∃ ref ∈ usedRefs record.receipt, s = activityRef record.receipt ∧ x = .uri ref := by
  rw [mem_evidenceGraph h (by simp [selectionPredicates, rdfType, dcterms, prov])]
  simp [recordTriples, rdfType, dcterms, prov, eq_comm]

end Rdf

end GymAct
