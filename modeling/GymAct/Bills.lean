import Mathlib.Algebra.BigOperators.Group.List.Basic
import Mathlib.Data.List.Flatten
import GymAct.Agreements

/-!
# The bills

Usage is observed and admitted, meter intents charge it, acceptances accept the charge and
settlements settle it. Each of these operations stores its entry under an id of the caller,
and none looks at the entries that are there.

`billed_once` : usage is billed once where no meter intent charges a usage that it or
another one charges already, and no settlement settles what another one has settled.
`bills_backed` : the chain stays backed by its evidence where no call overwrites an entry
that the chain rests on, and no charge is negative.
-/

namespace GymAct

/-- What the entries of a table hold, together. -/
def Table.gather {α β : Type} (t : Table α) (f : α → List β) : List β :=
  t.entries.flatMap fun e => f e.2

theorem Table.nodup_gather_insert {α β : Type} {t : Table α} {f : α → List β} {k : String} {a : α}
    (h : (t.gather f).Nodup) (ha : (f a).Nodup)
    (hother : ∀ k' b, k' ≠ k → t.lookup k' = some b → (f a).Disjoint (f b)) :
    (Table.gather (t.insert k a) f).Nodup := by
  have hsub : ((t.entries.kerase k).flatMap fun e => f e.2).Sublist (t.gather f) :=
    (List.kerase_sublist k t.entries).flatMap _
  unfold Table.gather
  rw [AList.entries_insert, List.flatMap_cons]
  refine List.nodup_append'.mpr ⟨ha, h.sublist hsub, fun b hb hmem => ?_⟩
  obtain ⟨⟨k', a'⟩, he, hb'⟩ := List.mem_flatMap.mp hmem
  have hk : k' ≠ k := by
    rintro rfl
    exact List.notMem_keys_kerase k' t.nodupKeys (List.mem_keys_of_mem he)
  have hlookup : t.lookup k' = some a' :=
    AList.mem_lookup_iff.mpr ((List.kerase_sublist k t.entries).subset he)
  exact hother k' a' hk hlookup hb hb'

namespace Commerce

/-! ## Billed once -/

/-- No usage observation is charged twice, and no meter intent or acceptance settled twice. -/
structure BilledOnce (t : Tables) : Prop where
  usage : (t.meterIntents.gather (·.observationIds)).Nodup
  intents : (t.settlements.gather fun s => [s.intentId]).Nodup
  acceptances : (t.settlements.gather fun s => [s.acceptanceId]).Nodup

/-- When a call bills nothing again : a meter intent that is not refused charges distinct
observations that no other intent charges, and a settlement that is not refused is the only
one of its intent and of its acceptance. -/
def BillsOnce (w : World) : CommerceOp → Prop
  | .constructMeterIntent intentId observationIds =>
    ∀ entitlementId dimensionId observations price,
      Meterable w.tables observationIds entitlementId dimensionId observations price →
      observationIds.Nodup ∧ ∀ id m, id ≠ intentId → w.meterIntents.lookup id = some m →
        observationIds.Disjoint m.observationIds
  | .reconcile settlementId acceptanceId => ∀ acceptance intent,
    w.acceptances.lookup acceptanceId = some acceptance →
    w.meterIntents.lookup acceptance.intentId = some intent →
    acceptance.acceptedQuantity = intent.quantity →
    ∀ id s, id ≠ settlementId → w.settlements.lookup id = some s →
      s.intentId ≠ intent.intentId ∧ s.acceptanceId ≠ acceptanceId
  | _ => True

theorem sortedNames_perm (l : List String) : (sortedNames l).Perm l := List.perm_insertionSort _ l

theorem billedOnce_step {w w' : World} {op : CommerceOp} {reply : Reply} (hw : BilledOnce w.tables)
    (hop : BillsOnce w op) (h : Wrote w op reply w') : BilledOnce w'.tables := by
  cases h with
  | raised | refused => exact hw
  | @constructed _ ids intent observations price hid hmetered reply _ htables =>
    obtain ⟨hnodup, hother⟩ := hop _ _ _ _ hmetered.toMeterable
    have hperm : intent.observationIds.Perm ids := hmetered.ids_eq ▸ sortedNames_perm ids
    rw [htables]
    refine ⟨?_, hw.intents, hw.acceptances⟩
    refine Table.nodup_gather_insert hw.usage (hperm.nodup_iff.mpr hnodup) fun id m hne hm => ?_
    exact fun o ho => hother id m hne hm (hperm.subset ho)
  | settled hacceptance hintent hquantity reply htables =>
    have hothers := hop _ _ hacceptance hintent hquantity
    rw [htables]
    refine ⟨hw.usage, ?_, ?_⟩
    · refine Table.nodup_gather_insert hw.intents (List.nodup_singleton _) fun id s hne hs => ?_
      rw [List.singleton_disjoint, List.mem_singleton]
      exact (hothers id s hne hs).1.symm
    · refine Table.nodup_gather_insert hw.acceptances (List.nodup_singleton _) fun id s hne hs => ?_
      rw [List.singleton_disjoint, List.mem_singleton]
      exact (hothers id s hne hs).2.symm
  | aside _ _ _ htables | admitted _ _ _ htables | applied _ _ _ _ htables | observed _ _ htables
  | usageAdmitted _ _ htables | accepted _ _ htables | changed _ _ _ _ _ htables
  | cancelled _ _ htables =>
    rw [htables]
    exact ⟨hw.usage, hw.intents, hw.acceptances⟩

theorem billed_once (digest : Value → Except PyError String) (ops : List CommerceOp)
    (h : ∀ t ∈ trace digest ops, BillsOnce t.before t.op) : BilledOnce (run digest ops).tables :=
  run_induction_of (P := fun w => BilledOnce w.tables) digest
    ⟨List.nodup_nil, List.nodup_nil, List.nodup_nil⟩
    (fun _ _ _ _ hw hop hwrote => billedOnce_step hw hop hwrote) ops h

/-! ## Backed by evidence -/

/-- The acceptance and the meter intent that a settlement names are stored, and agree with it. -/
def SettlementBacked (t : Tables) (s : Settlement) : Prop :=
  ∃ a m, t.acceptances.lookup s.acceptanceId = some a ∧ a.intentId = s.intentId ∧
    t.meterIntents.lookup s.intentId = some m ∧ s.amountMicros = m.amountMicros ∧
    a.acceptedQuantity = m.quantity

/-- The observations that a meter intent names are stored, admitted and of its entitlement and
dimension, and their quantities sum to its quantity. -/
def IntentBacked (t : Tables) (m : MeterIntent) : Prop :=
  ∃ observations : List UsageObservation,
    m.observationIds.map t.usage.lookup = observations.map some ∧
    m.quantity = (observations.map (·.quantity)).sum ∧
    ∀ o ∈ observations, o.admitted = true ∧ o.entitlementId = m.entitlementId ∧
      o.dimensionId = m.dimensionId

structure Backed (t : Tables) : Prop where
  settlements : ∀ id s, t.settlements.lookup id = some s → SettlementBacked t s
  intents : ∀ id m, t.meterIntents.lookup id = some m → IntentBacked t m
  intent_amount : ∀ id m, t.meterIntents.lookup id = some m → 0 ≤ m.amountMicros
  settlement_amount : ∀ id s, t.settlements.lookup id = some s → 0 ≤ s.amountMicros
  adjustment_amount : ∀ id a, t.adjustments.lookup id = some a → 0 ≤ a.amountMicros

/-- When a call leaves the chain backed : it observes no usage that an intent charges, a meter
intent that is not refused charges no negative amount and what its settlements settled, and
an acceptance that is admitted accepts what its settlements settled. -/
def KeepsBacking (w : World) : CommerceOp → Prop
  | .observeUsage observation => ∀ id m, w.meterIntents.lookup id = some m →
    observation.observationId ∉ m.observationIds
  | .constructMeterIntent intentId observationIds =>
    ∀ entitlementId dimensionId (observations : List UsageObservation) price,
      Meterable w.tables observationIds entitlementId dimensionId observations price →
      0 ≤ (observations.map (·.quantity)).sum * price.unitPriceMicros ∧
      ∀ id s a, w.settlements.lookup id = some s → s.intentId = intentId →
        w.acceptances.lookup s.acceptanceId = some a →
        s.amountMicros = (observations.map (·.quantity)).sum * price.unitPriceMicros ∧
          a.acceptedQuantity = (observations.map (·.quantity)).sum
  | .admitExternalAcceptance acceptance => acceptanceRefusal w acceptance = none →
    ∀ id s m, w.settlements.lookup id = some s → s.acceptanceId = acceptance.acceptanceId →
      w.meterIntents.lookup s.intentId = some m →
      acceptance.intentId = s.intentId ∧ acceptance.acceptedQuantity = m.quantity
  | _ => True

section Backing

variable {w w' : World} {t : Tables} {op : CommerceOp} {reply : Reply}

/-- Meter intents are stored under their ids. -/
def Keyed (t : Tables) : Prop := ∀ id m, t.meterIntents.lookup id = some m → m.intentId = id

theorem keyed_step (hw : Keyed w.tables) (h : Wrote w op reply w') : Keyed w'.tables := by
  cases h with
  | raised | refused => exact hw
  | constructed intent observations price hid hmetered reply htables =>
    rw [htables]
    intro id m hm
    rw [Table.lookup_insert] at hm
    split_ifs at hm with h
    · obtain rfl := Option.some.inj hm
      exact hid.trans h.symm
    · exact hw id m hm
  | aside _ _ _ htables | admitted _ _ _ htables | applied _ _ _ _ htables | observed _ _ htables
  | usageAdmitted _ _ htables | accepted _ _ htables | settled _ _ _ _ htables
  | changed _ _ _ _ _ htables | cancelled _ _ htables =>
    rw [htables]
    exact hw

theorem IntentBacked.of_lookup {m : MeterIntent} {usage : Table UsageObservation}
    (h : IntentBacked t m)
    (hu : ∀ id ∈ m.observationIds, usage.lookup id = t.usage.lookup id) :
    IntentBacked { t with usage } m := by
  obtain ⟨observations, hstored, hrest⟩ := h
  exact ⟨observations, (List.map_congr_left hu).trans hstored, hrest⟩

/-- The observations of a backed intent are admitted. -/
theorem IntentBacked.admitted {m : MeterIntent} {id : String} {o : UsageObservation}
    (h : IntentBacked t m) (hid : id ∈ m.observationIds) (ho : t.usage.lookup id = some o) :
    o.admitted = true := by
  obtain ⟨observations, hstored, -, hall⟩ := h
  have hmem : t.usage.lookup id ∈ observations.map some := hstored ▸ List.mem_map_of_mem hid
  rw [ho] at hmem
  obtain ⟨o', ho', heq⟩ := List.mem_map.mp hmem
  obtain rfl := Option.some.inj heq
  exact (hall o' ho').1

/-- What a new meter intent charges is backed. -/
theorem Metered.intentBacked {observationIds : List String} {intent : MeterIntent}
    {observations : List UsageObservation} {price : PricingDimension}
    (h : Metered t observationIds intent observations price) : IntentBacked t intent := by
  -- the intent names the observations in sorted order
  have hperm : (intent.observationIds.map t.usage.lookup).Perm (observations.map some) := by
    rw [h.ids_eq, ← h.stored]
    exact (sortedNames_perm observationIds).map _
  obtain ⟨sorted, hsorted, hsame⟩ : ∃ sorted : List UsageObservation,
      intent.observationIds.map t.usage.lookup = sorted.map some ∧ sorted.Perm observations := by
    have := List.eq_map_comp_perm (some : UsageObservation → Option UsageObservation)
    exact (congrFun₂ this _ _).mpr hperm
  refine ⟨sorted, hsorted, ?_, fun o ho => ?_⟩
  · rw [h.quantity_eq]
    exact (hsame.map _).sum_eq.symm
  · have ho := hsame.subset ho
    exact ⟨h.admitted o ho, h.entitlement_eq o ho, h.dimension_eq o ho⟩

theorem Backed.of_usage {usage : Table UsageObservation} (ht : Backed t)
    (hu : ∀ k m, t.meterIntents.lookup k = some m → ∀ id ∈ m.observationIds,
      usage.lookup id = t.usage.lookup id) : Backed { t with usage } where
  settlements := ht.settlements
  intents k m hm := (ht.intents k m hm).of_lookup (hu k m hm)
  intent_amount := ht.intent_amount
  settlement_amount := ht.settlement_amount
  adjustment_amount := ht.adjustment_amount

/-- A usage that a backed intent charges and that is admitted again stays as it is. -/
theorem Backed.lookup_admitted {observationId id k : String} {observation : UsageObservation}
    {m : MeterIntent} (ht : Backed t) (hstored : t.usage.lookup observationId = some observation)
    (hm : t.meterIntents.lookup id = some m) (hk : k ∈ m.observationIds) :
    (AList.insert observationId { observation with admitted := true } t.usage).lookup k =
      t.usage.lookup k := by
  rw [Table.lookup_insert]
  split_ifs with heq
  · subst heq
    have hadmitted := (ht.intents id m hm).admitted hk hstored
    rw [hstored, ← hadmitted]
  · rfl

theorem Backed.of_adjustments {adjustments : Table FinancialAdjustment} (ht : Backed t)
    (hadjusted : ∀ id a, adjustments.lookup id = some a →
      t.adjustments.lookup id = some a ∨ 0 < a.amountMicros) : Backed { t with adjustments } where
  settlements := ht.settlements
  intents := ht.intents
  intent_amount := ht.intent_amount
  settlement_amount := ht.settlement_amount
  adjustment_amount id a ha := by
    rcases hadjusted id a ha with hstored | hpos
    · exact ht.adjustment_amount id a hstored
    · exact hpos.le

theorem backed_constructed {intentId : String} {observationIds : List String} {intent : MeterIntent}
    {observations : List UsageObservation} {price : PricingDimension} (hw : Backed w.tables)
    (hop : KeepsBacking w (.constructMeterIntent intentId observationIds))
    (hmetered : Metered w.tables observationIds intent observations price) :
    Backed { w.tables with meterIntents := w.meterIntents.insert intentId intent } := by
  obtain ⟨hamount, hsettled⟩ := hop _ _ _ _ hmetered.toMeterable
  have hcharge : intent.amountMicros =
      (observations.map (·.quantity)).sum * price.unitPriceMicros := by
    rw [hmetered.amount_eq, hmetered.quantity_eq]
  refine ⟨fun k s hs => ?_, fun k m hm => ?_, fun k m hm => ?_, hw.settlement_amount,
    hw.adjustment_amount⟩
  · obtain ⟨a, m, ha, hintent, hm, hsame, haccepted⟩ := hw.settlements k s hs
    by_cases heq : s.intentId = intentId
    · obtain ⟨hs', ha'⟩ := hsettled k s a hs heq ha
      refine ⟨a, intent, ha, hintent, ?_, hs'.trans hcharge.symm,
        ha'.trans hmetered.quantity_eq.symm⟩
      rw [heq]
      exact AList.lookup_insert _
    · exact ⟨a, m, ha, hintent, (AList.lookup_insert_ne heq).trans hm, hsame, haccepted⟩
  · rw [Table.lookup_insert] at hm
    split_ifs at hm
    · obtain rfl := Option.some.inj hm
      exact hmetered.intentBacked
    · exact hw.intents k m hm
  · rw [Table.lookup_insert] at hm
    split_ifs at hm
    · obtain rfl := Option.some.inj hm
      exact hcharge ▸ hamount
    · exact hw.intent_amount k m hm

theorem backed_accepted {acceptance : ExternalAcceptance} (hw : Backed w.tables)
    (hop : KeepsBacking w (.admitExternalAcceptance acceptance))
    (hchecks : acceptanceRefusal w acceptance = none) :
    Backed { w.tables with
      acceptances := w.acceptances.insert acceptance.acceptanceId acceptance } := by
  refine ⟨fun k s hs => ?_, hw.intents, hw.intent_amount, hw.settlement_amount,
    hw.adjustment_amount⟩
  obtain ⟨a, m, ha, hintent, hm, hsame, haccepted⟩ := hw.settlements k s hs
  by_cases heq : s.acceptanceId = acceptance.acceptanceId
  · obtain ⟨hintent', haccepted'⟩ := hop hchecks k s m hs heq hm
    refine ⟨acceptance, m, ?_, hintent', hm, hsame, haccepted'⟩
    rw [heq]
    exact AList.lookup_insert _
  · exact ⟨a, m, (AList.lookup_insert_ne heq).trans ha, hintent, hm, hsame, haccepted⟩

theorem backed_settled {settlementId acceptanceId receiptId : String}
    {acceptance : ExternalAcceptance} {intent : MeterIntent} (ht : Backed t) (hkeyed : Keyed t)
    (hacceptance : t.acceptances.lookup acceptanceId = some acceptance)
    (hintent : t.meterIntents.lookup acceptance.intentId = some intent)
    (hquantity : acceptance.acceptedQuantity = intent.quantity) :
    Backed { t with
      settlements := t.settlements.insert settlementId
        ⟨settlementId, intent.intentId, acceptanceId, intent.amountMicros, receiptId⟩ } := by
  have hkey : intent.intentId = acceptance.intentId := hkeyed _ intent hintent
  refine ⟨fun k s hs => ?_, ht.intents, ht.intent_amount, fun k s hs => ?_, ht.adjustment_amount⟩
  · rw [Table.lookup_insert] at hs
    split_ifs at hs
    · obtain rfl := Option.some.inj hs
      exact ⟨acceptance, intent, hacceptance, hkey.symm, hkey ▸ hintent, rfl, hquantity⟩
    · exact ht.settlements k s hs
  · rw [Table.lookup_insert] at hs
    split_ifs at hs
    · obtain rfl := Option.some.inj hs
      exact ht.intent_amount _ intent hintent
    · exact ht.settlement_amount k s hs

theorem backed_step (hw : Backed w.tables) (hkeyed : Keyed w.tables) (hop : KeepsBacking w op)
    (h : Wrote w op reply w') : Backed w'.tables := by
  cases h with
  | raised | refused => exact hw
  | aside _ _ hadjusted htables => exact htables ▸ hw.of_adjustments hadjusted
  | observed observation reply htables =>
    rw [htables]
    refine hw.of_usage fun k m hm id hid => ?_
    exact AList.lookup_insert_ne fun heq => hop k m hm (heq ▸ hid)
  | usageAdmitted hstored reply htables =>
    rw [htables]
    exact hw.of_usage fun k m hm id hid => hw.lookup_admitted hstored hm hid
  | constructed intent observations price hid hmetered reply htables =>
    exact htables ▸ backed_constructed hw hop hmetered
  | accepted hchecks reply htables => exact htables ▸ backed_accepted hw hop hchecks
  | settled hacceptance hintent hquantity reply htables =>
    exact htables ▸ backed_settled hw hkeyed hacceptance hintent hquantity
  | admitted _ _ _ htables | applied _ _ _ _ htables | changed _ _ _ _ _ htables
  | cancelled _ _ htables =>
    rw [htables]
    exact ⟨hw.settlements, hw.intents, hw.intent_amount, hw.settlement_amount, hw.adjustment_amount⟩

end Backing

theorem bills_backed (digest : Value → Except PyError String) (ops : List CommerceOp)
    (h : ∀ t ∈ trace digest ops, KeepsBacking t.before t.op) :
    Backed (run digest ops).tables := by
  refine (run_induction_of (P := fun w => Backed w.tables ∧ Keyed w.tables) digest ?_ ?_ ops h).1
  · refine ⟨⟨?_, ?_, ?_, ?_, ?_⟩, ?_⟩ <;> exact fun _ _ h => by cases h
  · rintro w op reply w' ⟨hw, hkeyed⟩ hop hwrote
    exact ⟨backed_step hw hkeyed hop hwrote, keyed_step hkeyed hwrote⟩

/-! ## A bill, and what breaks it -/

def sampleEvent (kind : EventKind) (revision : ℤ) : CommerceOp :=
  .applyEntitlementEvent "market"
    ⟨kind.value, "market", kind, "a", "e", "tenant", "product", revision, 1, ∅, none⟩
    (some ⟨"g", "brce", "e", "entitlement.apply-event", "authority:test"⟩)

def sampleUsage : UsageObservation :=
  ⟨"u", "e", "tenant", "calls", 5, "2026-08-19T00:00:00Z", false⟩

/-- A usage observed, admitted and charged. -/
def sampleMetered : List CommerceOp :=
  [.admitAgreement sampleAgreement, sampleEvent .create 1, sampleEvent .activate 2,
    .observeUsage sampleUsage, .admitUsage "u", .constructMeterIntent "m" ["u"]]

/-- The charge accepted and settled. -/
def sampleBill : List CommerceOp :=
  sampleMetered ++ [.admitExternalAcceptance ⟨"x", "m", "provider", true, "evidence", 5, .liveExternal⟩,
    .reconcile "s" "x"]

example : (run Canon.reference.digest sampleBill).settlements.entries.map
    (fun e => (e.1, e.2.amountMicros)) = [("s", 10)] := by
  decide +kernel

/-- No meter intent is stored before the sample's, and no settlement before its own. -/
theorem sampleBill_first :
    (∀ id, (run Canon.reference.digest (sampleMetered.take 3)).meterIntents.lookup id = none) ∧
      (∀ id, (run Canon.reference.digest (sampleMetered.take 5)).meterIntents.lookup id = none) ∧
      (∀ id, (run Canon.reference.digest (sampleMetered.take 5)).settlements.lookup id = none) ∧
      (∀ id, (run Canon.reference.digest sampleMetered).settlements.lookup id = none) ∧
      ∀ id, (run Canon.reference.digest (sampleBill.take 7)).settlements.lookup id = none := by
  have hempty {α : Type} {t : Table α} (h : t.keys = []) (id : String) : t.lookup id = none :=
    AList.lookup_eq_none.mpr fun hmem => by
      rw [AList.mem_keys, h] at hmem
      cases hmem
  refine ⟨hempty ?_, hempty ?_, hempty ?_, hempty ?_, hempty ?_⟩ <;> decide +kernel

theorem billed_once_sample : BilledOnce (run Canon.reference.digest sampleBill).tables := by
  obtain ⟨-, hintents, -, -, hsettlements⟩ := sampleBill_first
  refine billed_once _ _ ?_
  simp only [trace, sampleBill, sampleMetered, List.cons_append, List.nil_append, traceFrom,
    List.forall_mem_cons]
  refine ⟨trivial, trivial, trivial, trivial, trivial, ?_, trivial, ?_, List.forall_mem_nil _⟩
  · refine fun _ _ _ _ _ => ⟨List.nodup_singleton _, fun id m _ hm => ?_⟩
    cases (hintents id).symm.trans hm
  · intro _ _ _ _ _ id s _ hs
    cases (hsettlements id).symm.trans hs

theorem bills_backed_sample : Backed (run Canon.reference.digest sampleBill).tables := by
  obtain ⟨hunobserved, -, hunsettled, hunaccepted, -⟩ := sampleBill_first
  have husage : (run Canon.reference.digest (sampleMetered.take 5)).usage.lookup "u" =
      some { sampleUsage with admitted := true } := by
    decide +kernel
  refine bills_backed _ _ ?_
  simp only [trace, sampleBill, sampleMetered, List.cons_append, List.nil_append, traceFrom,
    List.forall_mem_cons]
  refine ⟨trivial, trivial, trivial, ?_, trivial, ?_, ?_, trivial, List.forall_mem_nil _⟩
  · intro id m hm
    cases (hunobserved id).symm.trans hm
  · intro _ _ observations price hmeterable
    have hstored : [some { sampleUsage with admitted := true }] = observations.map some :=
      husage ▸ hmeterable.stored
    obtain ⟨o, rfl, ho⟩ := List.map_eq_singleton_iff.mp hstored.symm
    obtain rfl := Option.some.inj ho
    refine ⟨Int.mul_nonneg (by decide) price.price_nonneg, fun id s a hs => ?_⟩
    cases (hunsettled id).symm.trans hs
  · intro _ id s m hs
    cases (hunaccepted id).symm.trans hs

/-- Another meter intent charges the same usage. -/
theorem usage_billed_twice :
    ¬ BilledOnce (run Canon.reference.digest
      (sampleMetered ++ [.constructMeterIntent "m2" ["u"]])).tables := by
  intro h
  have husage : (run Canon.reference.digest (sampleMetered ++ [.constructMeterIntent "m2" ["u"]])
      ).tables.meterIntents.gather (·.observationIds) = ["u", "u"] := by
    decide +kernel
  exact absurd (husage ▸ h.usage) (by decide)

/-- The usage of a meter intent is observed again, and no longer admitted. -/
theorem backing_lost :
    ¬ Backed (run Canon.reference.digest (sampleMetered ++ [.observeUsage sampleUsage])).tables := by
  intro h
  have hintent : ((run Canon.reference.digest (sampleMetered ++ [.observeUsage sampleUsage])
      ).tables.meterIntents.lookup "m").map (·.observationIds) = some ["u"] := by
    decide +kernel
  have husage : (run Canon.reference.digest (sampleMetered ++ [.observeUsage sampleUsage])
      ).tables.usage.lookup "u" = some sampleUsage := by
    decide +kernel
  obtain ⟨m, hm, hids⟩ := Option.map_eq_some_iff.mp hintent
  have hu : "u" ∈ m.observationIds := hids ▸ List.mem_singleton_self "u"
  exact absurd ((h.intents "m" m hm).admitted hu husage) (by decide)

end Commerce

end GymAct
