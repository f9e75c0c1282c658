import Mathlib.Data.List.Infix
import GymAct.EvidenceTriples
import GymAct.FactorySim
import GymAct.Sparql

/-!
# The unauthorized actuation path

The query of `crown_p1.py` : an act that is alive, whose activity used no authority evidence. The
evidence is told from the other references of the activity by the prefix of its IRI, and nothing
keeps the subject or the capability of a receipt from having that prefix
(`unauthorized_path_exact_iff`).
-/

namespace GymAct

open Rdf Sparql

/-- The variables of the query. -/
inductive PathVar
  | activity | receipt | authority
  deriving DecidableEq, Repr

/-- `_AUTHORITY_EVIDENCE_PREFIX`. -/
def authorityEvidencePrefix : String := "urn:gymact:authority-decision:"

/-- The reference starts as authority evidence does. -/
def LooksAuthorized (ref : String) : Prop := authorityEvidencePrefix.toList <+: ref.toList

instance : DecidablePred LooksAuthorized := fun ref =>
  inferInstanceAs (Decidable (authorityEvidencePrefix.toList <+: ref.toList))

/-- `STRSTARTS(STR(?authority), …)`. No JSON document starts as authority evidence does. -/
def Term.looksAuthorized : Term → Bool
  | uri iri => LooksAuthorized iri
  | literal lexical => LooksAuthorized lexical
  | json _ => false

/-- `_UNAUTHORIZED_ACTUATION_PATH_ASK`. -/
def unauthorizedActuationPath : AskNotExists PathVar Term where
  outer := [⟨.var .activity, .term rdfType, .term (prov "Activity")⟩,
    ⟨.var .activity, .term (dcterms "type"), .term (.literal "act")⟩,
    ⟨.var .receipt, .term (prov "wasGeneratedBy"), .var .activity⟩,
    ⟨.var .receipt, .term (dcterms "type"), .term (.literal "ALIVE")⟩]
  absent := [⟨.var .activity, .term (prov "used"), .var .authority⟩]
  filter μ := (μ .authority).any Term.looksAuthorized

/-- `unauthorized_actuation_path_ask`. -/
def unauthorizedActuationPathAsk (graph : Finset Triple) : Bool :=
  unauthorizedActuationPath.Holds graph

variable (C : Canon)

/-- The record `graph_for_receipts` wraps a receipt in. -/
def minimalRecord (i : ℕ) (receipt : Receipt) : Except PyError EvidenceRecord := do
  let receiptDigest ← C.digest receipt.modelDump
  let recordDigest ← C.digest (.dict [("sequence", .int i), ("receipt", .str receipt.receiptId)])
  return ⟨i, none, receiptDigest, recordDigest, receipt⟩

/-- `graph_for_receipts`. -/
def graphForReceipts (receipts : List Receipt) : Except PyError (Finset Triple) := do
  let records ← receipts.zipIdx.mapM fun item => minimalRecord C item.2 item.1
  evidenceGraph C records

/-- The receipt is of an act that is alive. -/
def Receipt.ActsAlive (receipt : Receipt) : Prop :=
  receipt.operation = .act ∧ receipt.standing = .alive

/-! ## The answer of the query -/

section Query

variable {g : Finset Triple} {μ : Binding PathVar Term} {activity : Term}

theorem solves_outer_iff : (∀ p ∈ unauthorizedActuationPath.outer, ∃ t ∈ g, p.Is μ t) ↔
    ∃ activity receipt, μ .activity = some activity ∧ μ .receipt = some receipt ∧
      (activity, rdfType, prov "Activity") ∈ g ∧
      (activity, dcterms "type", .literal "act") ∈ g ∧
      (receipt, prov "wasGeneratedBy", activity) ∈ g ∧
      (receipt, dcterms "type", .literal "ALIVE") ∈ g := by
  simp only [unauthorizedActuationPath, TriplePattern.Is, Slot.value, List.forall_mem_cons]
  constructor
  · rintro ⟨⟨⟨a, _, _⟩, hactivity, ha, hp, ho⟩, ⟨⟨a', _, _⟩, hact, ha', hp', ho'⟩,
      ⟨⟨r, _, b⟩, hgenerated, hr, hq, hb⟩, ⟨⟨r', _, _⟩, halive, hr', hq', ho''⟩, -⟩
    obtain rfl := Option.some_inj.mp (ha.symm.trans ha')
    obtain rfl := Option.some_inj.mp (ha.symm.trans hb)
    obtain rfl := Option.some_inj.mp (hr.symm.trans hr')
    rw [Option.some_inj] at hp ho hp' ho' hq hq' ho''
    subst hp ho hp' ho' hq hq' ho''
    exact ⟨a, r, ha, hr, hactivity, hact, hgenerated, halive⟩
  · rintro ⟨a, r, ha, hr, hactivity, hact, hgenerated, halive⟩
    exact ⟨⟨_, hactivity, ha, rfl, rfl⟩, ⟨_, hact, ha, rfl, rfl⟩, ⟨_, hgenerated, hr, rfl, ha⟩,
      ⟨_, halive, hr, rfl, rfl⟩,
      List.forall_mem_nil _⟩

theorem solves_absent_iff (hactivity : μ .activity = some activity) (hfree : μ .authority = none) :
    (∃ ν, Extends μ (Sparql.vars unauthorizedActuationPath.absent) ν ∧
      (∀ p ∈ unauthorizedActuationPath.absent, ∃ t ∈ g, p.Is ν t) ∧
      unauthorizedActuationPath.filter ν = true) ↔
    ∃ authority, (activity, prov "used", authority) ∈ g ∧ authority.looksAuthorized = true := by
  constructor
  · rintro ⟨ν, hν, hused, hfilter⟩
    obtain ⟨⟨a, _, u⟩, hmem, ha, hp, hu⟩ := hused _ List.mem_cons_self
    obtain rfl := Option.some_inj.mp ((hν.keeps _ _ hactivity).symm.trans ha)
    obtain rfl := Option.some_inj.mp hp
    have hu : ν .authority = some u := hu
    have hlooks : (ν .authority).any Term.looksAuthorized = true := hfilter
    rw [hu] at hlooks
    exact ⟨u, hmem, hlooks⟩
  · rintro ⟨u, hmem, hlooks⟩
    have hself : Function.update μ .authority (some u) .authority = some u :=
      Function.update_self ..
    refine ⟨Function.update μ .authority (some u), ⟨fun v t hv => ?_, fun v hv => ?_⟩, ?_, ?_⟩
    · have hne : v ≠ .authority := by
        rintro rfl
        cases hfree.symm.trans hv
      rw [Function.update_of_ne hne, hv]
    · refine Function.update_of_ne (fun h => hv ?_) ..
      rw [h]
      decide
    · intro p hp
      obtain rfl := List.mem_singleton.mp hp
      exact ⟨_, hmem, hactivity, rfl, hself⟩
    · show (Function.update μ .authority (some u) .authority).any Term.looksAuthorized = true
      rwa [hself]

theorem unauthorizedActuationPathAsk_iff :
    unauthorizedActuationPathAsk g = true ↔ ∃ activity receipt : Term,
      (activity, rdfType, prov "Activity") ∈ g ∧
      (activity, dcterms "type", .literal "act") ∈ g ∧
      (receipt, prov "wasGeneratedBy", activity) ∈ g ∧
      (receipt, dcterms "type", .literal "ALIVE") ∈ g ∧
      ¬ ∃ authority, (activity, prov "used", authority) ∈ g ∧
        authority.looksAuthorized = true := by
  rw [unauthorizedActuationPathAsk, decide_eq_true_iff, AskNotExists.holds_iff]
  constructor
  · rintro ⟨μ, hfree, houter, habsent⟩
    obtain ⟨a, r, ha, -, hactivity, hact, hgenerated, halive⟩ := solves_outer_iff.mp houter
    rw [solves_absent_iff ha (hfree _ (by decide))] at habsent
    exact ⟨a, r, hactivity, hact, hgenerated, halive, habsent⟩
  · rintro ⟨a, r, hactivity, hact, hgenerated, halive, habsent⟩
    refine ⟨fun
      | .activity => some a
      | .receipt => some r
      | .authority => none, fun v hv => ?_,
      solves_outer_iff.mpr ⟨a, r, rfl, rfl, hactivity, hact, hgenerated, halive⟩, ?_⟩
    · match v with
      | .activity => exact absurd (by decide) hv
      | .receipt => exact absurd (by decide) hv
      | .authority => rfl
    · rwa [solves_absent_iff rfl rfl]

end Query

/-! ## The answer on receipts -/

/-- The authority evidence, if any, is one an `AllowListAuthorityResolver` issued. -/
def Receipt.AllowListed (receipt : Receipt) : Prop :=
  ∀ ref ∈ receipt.authorityEvidenceRef, ∃ allowed request,
    (FactorySim.allowListAuthorize allowed request).evidenceRef = some ref

theorem looksAuthorized_of_allowListed {receipt : Receipt} (h : receipt.AllowListed) {ref : String}
    (href : receipt.authorityEvidenceRef = some ref) : LooksAuthorized ref := by
  obtain ⟨allowed, request, hissued⟩ := h ref href
  unfold FactorySim.allowListAuthorize at hissued
  split at hissued
  · cases hissued
  · split at hissued
    · obtain rfl := Option.some_inj.mp hissued
      rw [LooksAuthorized, String.toList_append]
      exact List.prefix_append ..
    · cases hissued

theorem mem_usedRefs {receipt : Receipt} {ref : String} : ref ∈ usedRefs receipt ↔
    (receipt.subjectRef = some ref ∨ receipt.capabilityRef = some ref ∨
      receipt.authorityEvidenceRef = some ref) ∧ ref ≠ "" := by
  simp only [usedRefs, List.mem_filter, List.mem_filterMap, id, exists_eq_right, List.mem_cons,
    List.not_mem_nil, or_false, decide_eq_true_iff, eq_comm (a := some ref)]

theorem LooksAuthorized.ne_empty {ref : String} (h : LooksAuthorized ref) : ref ≠ "" := by
  rintro rfl
  exact absurd h (by decide)

/-- No reference looks like authority evidence when there is no evidence, and neither the subject
nor the capability looks like some. -/
theorem forall_usedRefs_iff {receipt : Receipt} (h : receipt.AllowListed) :
    (∀ ref ∈ usedRefs receipt, ¬ LooksAuthorized ref) ↔ receipt.authorityEvidenceRef = none ∧
      (∀ ref ∈ receipt.subjectRef, ¬ LooksAuthorized ref) ∧
      ∀ ref ∈ receipt.capabilityRef, ¬ LooksAuthorized ref := by
  simp only [mem_usedRefs, Option.mem_def]
  constructor
  · intro hnone
    refine ⟨Option.eq_none_iff_forall_ne_some.mpr fun ref href => ?_, fun ref href hlooks => ?_,
      fun ref href hlooks => ?_⟩
    · have hlooks := looksAuthorized_of_allowListed h href
      exact hnone ref ⟨Or.inr (Or.inr href), hlooks.ne_empty⟩ hlooks
    · exact hnone ref ⟨Or.inl href, hlooks.ne_empty⟩ hlooks
    · exact hnone ref ⟨Or.inr (Or.inl href), hlooks.ne_empty⟩ hlooks
  · rintro ⟨hevidence, hsubject, hcapability⟩ ref ⟨href | href | href, -⟩
    · exact hsubject ref href
    · exact hcapability ref href
    · cases hevidence.symm.trans href

theorem operation_value_eq_act {operation : Operation} :
    operation.value = "act" ↔ operation = .act := by
  cases operation <;> decide

theorem standing_value_eq_alive {standing : Standing} :
    standing.value = "ALIVE" ↔ standing = .alive := by
  cases standing <;> decide

variable {C} {receipts : List Receipt} {g : Finset Triple}

theorem exists_records (h : graphForReceipts C receipts = .ok g) :
    ∃ records, evidenceGraph C records = .ok g ∧ records.map (·.receipt) = receipts := by
  obtain ⟨records, hrecords, hgraph⟩ := Fallible.bind_eq_ok.mp h
  refine ⟨records, hgraph, ?_⟩
  have hmap : records.map (·.receipt) = receipts.zipIdx.map Prod.fst := by
    refine Fallible.map_of_mapM (fun item record hrecord => ?_) hrecords
    obtain ⟨receiptDigest, -, hrecord⟩ := Fallible.bind_eq_ok.mp hrecord
    obtain ⟨recordDigest, -, hrecord⟩ := Fallible.bind_eq_ok.mp hrecord
    rw [← Except.ok.inj hrecord]
  rw [hmap, List.zipIdx_map_fst]

/-- The query finds an act that is alive, none of whose references looks like authority
evidence. -/
theorem ask_graphForReceipts_iff (hids : (receipts.map (·.receiptId)).Nodup)
    (h : graphForReceipts C receipts = .ok g) :
    unauthorizedActuationPathAsk g = true ↔
      ∃ r ∈ receipts, r.ActsAlive ∧ ∀ ref ∈ usedRefs r, ¬ LooksAuthorized ref := by
  obtain ⟨records, hgraph, rfl⟩ := exists_records h
  have hinj := List.inj_on_of_nodup_map hids
  have hsame : ∀ {a b : EvidenceRecord}, a ∈ records → b ∈ records →
      a.receipt.receiptId = b.receipt.receiptId → a.receipt = b.receipt := fun ha hb =>
    hinj (List.mem_map_of_mem ha) (List.mem_map_of_mem hb)
  rw [unauthorizedActuationPathAsk_iff]
  constructor
  · rintro ⟨activity, receipt, -, hact, hgenerated, halive, habsent⟩
    obtain ⟨record, hrecord, rfl, rfl⟩ := (wasGeneratedBy_mem_evidenceGraph hgraph).mp hgenerated
    refine ⟨record.receipt, List.mem_map_of_mem hrecord, ⟨?_, ?_⟩, fun ref href hlooks => ?_⟩
    · obtain ⟨other, hother, ⟨hactivity, -⟩ | ⟨hactivity, hvalue⟩⟩ :=
        (type_mem_evidenceGraph hgraph).mp hact
      · exact absurd hactivity.symm (receiptRef_ne_activityRef _ _)
      · rw [hsame hrecord hother (activityRef_inj.mp hactivity)]
        exact operation_value_eq_act.mp (Term.literal.inj hvalue).symm
    · obtain ⟨other, hother, ⟨hreceipt, hvalue⟩ | ⟨hreceipt, -⟩⟩ :=
        (type_mem_evidenceGraph hgraph).mp halive
      · rw [hsame hrecord hother (receiptRef_inj.mp hreceipt)]
        exact standing_value_eq_alive.mp (Term.literal.inj hvalue).symm
      · exact absurd hreceipt (receiptRef_ne_activityRef _ _)
    · refine habsent ⟨.uri ref, ?_, decide_eq_true hlooks⟩
      exact (used_mem_evidenceGraph hgraph).mpr ⟨record, hrecord, ref, href, rfl, rfl⟩
  · rintro ⟨_, hmem, ⟨hact, halive⟩, hnone⟩
    obtain ⟨record, hrecord, rfl⟩ := List.mem_map.mp hmem
    refine ⟨activityRef record.receipt, receiptRef record.receipt,
      activity_mem_evidenceGraph hgraph hrecord,
      (type_mem_evidenceGraph hgraph).mpr ⟨record, hrecord, Or.inr ⟨rfl, by rw [hact]; rfl⟩⟩,
      (wasGeneratedBy_mem_evidenceGraph hgraph).mpr ⟨record, hrecord, rfl, rfl⟩,
      (type_mem_evidenceGraph hgraph).mpr ⟨record, hrecord, Or.inl ⟨rfl, by rw [halive]; rfl⟩⟩, ?_⟩
    rintro ⟨authority, hused, hlooks⟩
    obtain ⟨other, hother, ref, href, hactivity, rfl⟩ := (used_mem_evidenceGraph hgraph).mp hused
    rw [← hsame hrecord hother (activityRef_inj.mp hactivity)] at href
    exact hnone ref href (of_decide_eq_true hlooks)

/-- The query is exact unless each act that is alive without authority evidence has a subject or a
capability that looks like some. -/
theorem unauthorized_path_exact_iff (hids : (receipts.map (·.receiptId)).Nodup)
    (hissued : ∀ r ∈ receipts, r.AllowListed) (hgraph : graphForReceipts C receipts = .ok g) :
    (unauthorizedActuationPathAsk g = true ↔
      ∃ r ∈ receipts, r.ActsAlive ∧ r.authorityEvidenceRef = none) ↔
    ((∃ r ∈ receipts, r.ActsAlive ∧ r.authorityEvidenceRef = none) →
      ∃ r ∈ receipts, (r.ActsAlive ∧ r.authorityEvidenceRef = none) ∧
        (∀ ref ∈ r.subjectRef, ¬ LooksAuthorized ref) ∧
        ∀ ref ∈ r.capabilityRef, ¬ LooksAuthorized ref) := by
  have hask : unauthorizedActuationPathAsk g = true ↔
      ∃ r ∈ receipts, (r.ActsAlive ∧ r.authorityEvidenceRef = none) ∧
        (∀ ref ∈ r.subjectRef, ¬ LooksAuthorized ref) ∧
        ∀ ref ∈ r.capabilityRef, ¬ LooksAuthorized ref := by
    rw [ask_graphForReceipts_iff hids hgraph]
    refine exists_congr fun r => and_congr_right fun hr => ?_
    rw [forall_usedRefs_iff (hissued r hr), and_assoc]
  rw [hask]
  exact ⟨Iff.mpr, fun h => ⟨fun ⟨r, hr, hunevidenced, _⟩ => ⟨r, hr, hunevidenced⟩, h⟩⟩

/-- An act that is alive. -/
def boundAct (receiptId subject : String) (evidence : Option String) : Receipt :=
  { receiptId, episodeId := "e", operation := .act, standing := .alive, subjectRef := some subject,
    authorityEvidenceRef := evidence }

/-- An act of an authority `live`, and one without. -/
def boundActs : List Receipt :=
  [boundAct "r" "urn:world" (some "urn:gymact:authority-decision:live"),
    boundAct "s" "urn:world" none]

theorem unauthorized_path_exact_sample : ∃ g, graphForReceipts Canon.reference boundActs = .ok g ∧
    (unauthorizedActuationPathAsk g = true ↔
      ∃ r ∈ boundActs, r.ActsAlive ∧ r.authorityEvidenceRef = none) := by
  obtain ⟨g, hg⟩ := Fallible.exists_eq_ok_of_isOk (x := graphForReceipts Canon.reference boundActs)
    (by decide +kernel)
  refine ⟨g, hg, (unauthorized_path_exact_iff (by decide) ?_ hg).mpr fun _ =>
    ⟨boundAct "s" "urn:world" none, by decide, ⟨⟨rfl, rfl⟩, rfl⟩, by decide, by decide⟩⟩
  simp only [boundActs, List.forall_mem_cons, List.not_mem_nil, false_imp_iff, implies_true,
    and_true]
  refine ⟨fun ref href => ?_, nofun⟩
  obtain rfl := Option.some_inj.mp href
  exact ⟨["live"], { FactorySim.authorityRequest "c" "d" with authorityRef := some "live" }, rfl⟩

/-- An act without authority evidence, on a subject whose name looks like some, is not found. -/
theorem unauthorized_path_not_exact : ∃ (receipts : List Receipt) (g : Finset Triple),
    (receipts.map (·.receiptId)).Nodup ∧ (∀ r ∈ receipts, r.AllowListed) ∧
    graphForReceipts Canon.reference receipts = .ok g ∧
    ¬ (unauthorizedActuationPathAsk g = true ↔
      ∃ r ∈ receipts, r.ActsAlive ∧ r.authorityEvidenceRef = none) := by
  have hids : ([boundAct "r" "urn:gymact:authority-decision:x" none].map (·.receiptId)).Nodup := by
    decide
  obtain ⟨g, hg⟩ := Fallible.exists_eq_ok_of_isOk (x := graphForReceipts Canon.reference
    [boundAct "r" "urn:gymact:authority-decision:x" none]) (by decide +kernel)
  refine ⟨_, g, hids, ?_, hg, fun hexact => ?_⟩
  · rintro r hr ref href
    obtain rfl := List.mem_singleton.mp hr
    cases href
  · obtain ⟨r, hr, -, hnone⟩ := (ask_graphForReceipts_iff hids hg).mp
      (hexact.mpr ⟨_, List.mem_singleton_self _, ⟨rfl, rfl⟩, rfl⟩)
    obtain rfl := List.mem_singleton.mp hr
    exact hnone "urn:gymact:authority-decision:x" (by decide) (by decide)

end GymAct
