import GymAct.Commerce

/-!
# The terms of agreements

`amend_agreement` and `renew_agreement` change an agreement under a broker grant, and
`cancel_agreement` ends it. `admit_agreement` checks neither a grant nor the status when it
stores another agreement under an id, and `amend_agreement` does not check that the
dimensions are distinct.

`terms_hold` : where every admission under a stored id admits what is stored, and every
amendment has distinct dimensions, the terms change under grants only (`TermsHold`).
-/

namespace GymAct

namespace Commerce

/-! ## The law -/

/-- A change of an agreement under a grant that matches it. -/
def Granted (t : Taken) (id : String) : Prop :=
  ∃ grant : BrokerGrant, grant.subjectId = id ∧
    ((grant.allowedOperation = "agreement.amend" ∧
        ∃ pricing offerId, t.op = .amendAgreement id pricing offerId (some grant)) ∨
      (grant.allowedOperation = "agreement.renew" ∧
        ∃ expiresAt, t.op = .renewAgreement id expiresAt (some grant)))

/-- The fields of an agreement that never change. -/
structure SameParties (a b : CommercialAgreement) : Prop where
  billingAuthority : b.billingAuthority = a.billingAuthority
  account : b.accountId = a.accountId
  legalEntity : b.legalEntityId = a.legalEntityId
  product : b.productId = a.productId

structure TermsHold (digest : Value → Except PyError String) (ops : List CommerceOp) : Prop where
  granted : ∀ id, ∀ t ∈ trace digest ops, ∀ a, t.before.agreements.lookup id = some a →
    t.after.agreements.lookup id ≠ some a → Granted t id
  /-- After a successful cancellation the agreement stays as it is. -/
  cancelled : ∀ id grant r pre post, ops = pre ++ .cancelAgreement id grant :: post →
    (taken digest pre (.cancelAgreement id grant)).reply = .ok (.ok r) →
    (run digest ops).agreements.lookup id = (run digest pre).agreements.lookup id
  parties : ∀ id, ∀ t ∈ trace digest ops, ∀ a, t.before.agreements.lookup id = some a →
    ∃ b, t.after.agreements.lookup id = some b ∧ SameParties a b
  distinct : ∀ t ∈ trace digest ops, ∀ id a, t.after.agreements.lookup id = some a →
    a.dimensionIds.Nodup

/-- When a call restores the terms : an admission that is not refused is of a new id or of
what is stored, an amendment that is not refused has distinct dimensions. -/
def RestoresTerms (w : World) : CommerceOp → Prop
  | .admitAgreement agreement => agreementRefusal w agreement = none →
    w.agreements.lookup agreement.agreementId = none ∨
      w.agreements.lookup agreement.agreementId = some agreement
  | .amendAgreement id pricing _ grant => w.agreements.lookup id ≠ none →
    w.agreementStatus.lookup id ≠ some "CANCELLED" →
    brceRefusal "agreement.amend" id grant = none → (pricing.map (·.dimensionId)).Nodup
  | _ => True

/-! ## One call -/

section Call

variable {t : Taken} {id : String} {a : CommercialAgreement}

/-- The agreements before and after a call : unchanged, an agreement admitted, or one
changed under a grant. -/
theorem agreement_cases (h : Wrote t.before t.op t.reply t.after) :
    t.after.agreements = t.before.agreements ∨
      (∃ agreement, t.op = .admitAgreement agreement ∧
        agreementRefusal t.before agreement = none ∧
        t.after.agreements = t.before.agreements.insert agreement.agreementId agreement) ∨
      ∃ id current next, Granted t id ∧ t.before.agreements.lookup id = some current ∧
        t.before.agreementStatus.lookup id ≠ some "CANCELLED" ∧ SameParties current next ∧
        (RestoresTerms t.before t.op → current.dimensionIds.Nodup → next.dimensionIds.Nodup) ∧
        t.after.agreements = t.before.agreements.insert id next := by
  obtain ⟨before, op, reply, after⟩ := t
  dsimp only at h ⊢
  cases h with
  | raised | refused => exact Or.inl rfl
  | admitted hchecks reply _ htables =>
    exact Or.inr (Or.inl ⟨_, rfl, hchecks, congrArg Tables.agreements htables⟩)
  | changed hop hcurrent hlive hgrant reply htables =>
    refine Or.inr (Or.inr ⟨_, _, _, ?_, hcurrent, hlive, ?_, ?_,
      congrArg Tables.agreements htables⟩)
    · rcases hop with ⟨rfl, pricing, offerId, hop, -⟩ | ⟨rfl, expiresAt, hop, -⟩
      · exact ⟨_, hgrant.1, Or.inl ⟨hgrant.2, pricing, offerId, hop⟩⟩
      · exact ⟨_, hgrant.1, Or.inr ⟨hgrant.2, expiresAt, hop⟩⟩
    · rcases hop with ⟨-, _, _, -, rfl⟩ | ⟨-, _, -, rfl⟩ <;> exact ⟨rfl, rfl, rfl, rfl⟩
    · intro hrestores hnodup
      rcases hop with ⟨rfl, pricing, offerId, rfl, rfl⟩ | ⟨-, _, -, rfl⟩
      · refine hrestores (by simp [hcurrent]) hlive ?_
        simp [brceRefusal, hgrant.1, hgrant.2]
      · exact hnodup
  | aside _ _ _ htables | applied _ _ _ _ htables | observed _ _ htables
  | usageAdmitted _ _ htables | constructed _ _ _ _ _ _ htables | accepted _ _ htables
  | settled _ _ _ _ htables | cancelled _ _ htables =>
    exact Or.inl (congrArg Tables.agreements htables)

/-- A call that restores the terms changes a stored agreement under a grant only, and keeps
its parties. -/
theorem agreement_step (h : Wrote t.before t.op t.reply t.after)
    (hrestores : RestoresTerms t.before t.op) (ha : t.before.agreements.lookup id = some a) :
    t.after.agreements.lookup id = some a ∨ Granted t id ∧
      t.before.agreementStatus.lookup id ≠ some "CANCELLED" ∧
      ∃ b, t.after.agreements.lookup id = some b ∧ SameParties a b := by
  rcases agreement_cases h with hsame | ⟨agreement, hop, hchecks, hafter⟩ |
    ⟨id', current, next, hgranted, hcurrent, hlive, hparties, -, hafter⟩
  · exact Or.inl (hsame ▸ ha)
  · rw [hop] at hrestores
    left
    rw [hafter, Table.lookup_insert]
    split_ifs with hid
    · subst hid
      rcases hrestores hchecks with hnone | hsome
      · rw [hnone] at ha
        cases ha
      · exact hsome.symm.trans ha
    · exact ha
  · rw [hafter, Table.lookup_insert]
    split_ifs with hid
    · subst hid
      obtain rfl := Option.some.inj (hcurrent.symm.trans ha)
      exact Or.inr ⟨hgranted, hlive, _, rfl, hparties⟩
    · exact Or.inl ha

/-- A call that restores the terms leaves every agreement with distinct dimensions. -/
theorem distinct_step (h : Wrote t.before t.op t.reply t.after)
    (hrestores : RestoresTerms t.before t.op)
    (hbefore : ∀ id a, t.before.agreements.lookup id = some a → a.dimensionIds.Nodup)
    (ha : t.after.agreements.lookup id = some a) : a.dimensionIds.Nodup := by
  rcases agreement_cases h with hsame | ⟨agreement, -, hchecks, hafter⟩ |
    ⟨id', current, next, -, hcurrent, -, -, hnodup, hafter⟩
  · exact hbefore id a (hsame ▸ ha)
  · rw [hafter, Table.lookup_insert] at ha
    split_ifs at ha with hid
    · obtain rfl := Option.some.inj ha
      unfold agreementRefusal at hchecks
      split_ifs at hchecks with _ _ hlength
      rw [← List.dedup_eq_self]
      exact (List.dedup_sublist _).eq_of_length (not_not.mp hlength).symm
    · exact hbefore id a ha
  · rw [hafter, Table.lookup_insert] at ha
    split_ifs at ha with hid
    · obtain rfl := Option.some.inj ha
      exact hnodup hrestores (hbefore id' current hcurrent)
    · exact hbefore id a ha

/-- A cancelled agreement stays cancelled. -/
theorem cancelled_step (h : Wrote t.before t.op t.reply t.after)
    (hc : t.before.agreementStatus.lookup id = some "CANCELLED") :
    t.after.agreementStatus.lookup id = some "CANCELLED" := by
  obtain ⟨before, op, reply, after⟩ := t
  dsimp only at h hc ⊢
  cases h with
  | raised | refused => exact hc
  | admitted _ _ hstatus htables =>
    rw [show after.agreementStatus = _ from congrArg Tables.agreementStatus htables]
    exact (hstatus id).mpr hc
  | cancelled _ _ htables =>
    rw [show after.agreementStatus = _ from congrArg Tables.agreementStatus htables]
    dsimp only
    rw [Table.lookup_insert]
    split_ifs
    · rfl
    · exact hc
  | aside _ _ _ htables | applied _ _ _ _ htables | observed _ _ htables
  | usageAdmitted _ _ htables | constructed _ _ _ _ _ _ htables | accepted _ _ htables
  | settled _ _ _ _ htables | changed _ _ _ _ _ htables =>
    rw [show after.agreementStatus = before.agreementStatus from
      congrArg Tables.agreementStatus htables]
    exact hc

/-- A successful cancellation is of a stored agreement, and marks it. -/
theorem cancel_step {grant : Option BrokerGrant} {r : CommerceReceipt}
    (h : Wrote t.before t.op t.reply t.after) (hop : t.op = .cancelAgreement id grant)
    (hreply : t.reply = .ok (.ok r)) :
    t.after.agreementStatus.lookup id = some "CANCELLED" ∧
      t.after.agreements = t.before.agreements ∧ ∃ a, t.before.agreements.lookup id = some a := by
  obtain ⟨before, op, reply, after⟩ := t
  dsimp only at h hop hreply ⊢
  subst hop hreply
  cases h with
  | aside hop => cases hop
  | changed hop => rcases hop with ⟨_, _, _, h, _⟩ | ⟨_, _, h, _⟩ <;> cases h
  | cancelled hcurrent _ htables =>
    refine ⟨?_, congrArg Tables.agreements htables, _, hcurrent⟩
    rw [show after.agreementStatus = _ from congrArg Tables.agreementStatus htables]
    exact AList.lookup_insert _

end Call

/-! ## Whole runs -/

section Runs

variable (digest : Value → Except PyError String)

theorem distinct_of_restores (ops : List CommerceOp)
    (h : ∀ t ∈ trace digest ops, RestoresTerms t.before t.op) :
    (∀ t ∈ trace digest ops, ∀ id a, t.after.agreements.lookup id = some a →
      a.dimensionIds.Nodup) ∧
    ∀ id a, (run digest ops).agreements.lookup id = some a → a.dimensionIds.Nodup := by
  induction ops using List.reverseRecOn with
  | nil => exact ⟨fun t ht => (by cases ht), fun id a ha => (by cases ha)⟩
  | append_singleton ops op ih =>
    rw [trace_snoc] at h ⊢
    obtain ⟨htrace, hrun⟩ := ih fun t ht => h t (List.mem_append_left _ ht)
    have hlast (id : String) (a : CommercialAgreement)
        (ha : (taken digest ops op).after.agreements.lookup id = some a) : a.dimensionIds.Nodup :=
      distinct_step (wrote_taken digest ops op) (h _ (by simp)) hrun ha
    refine ⟨fun t ht => ?_, hlast⟩
    rcases List.mem_append.mp ht with ht | ht
    · exact htrace t ht
    · obtain rfl := List.mem_singleton.mp ht
      exact hlast

/-- From a cancellation on, calls that restore the terms leave the agreement alone. -/
theorem cancelled_of_restores {id : String} {grant : Option BrokerGrant} {r : CommerceReceipt}
    (pre : List CommerceOp)
    (hreply : (taken digest pre (.cancelAgreement id grant)).reply = .ok (.ok r)) :
    ∀ post, (∀ t ∈ trace digest (pre ++ .cancelAgreement id grant :: post),
        RestoresTerms t.before t.op) →
      (run digest (pre ++ .cancelAgreement id grant :: post)).agreementStatus.lookup id =
        some "CANCELLED" ∧
      (run digest (pre ++ .cancelAgreement id grant :: post)).agreements.lookup id =
        (run digest pre).agreements.lookup id := by
  obtain ⟨hmarked, hsame, a, ha⟩ := cancel_step (wrote_taken digest pre _) rfl hreply
  intro post
  induction post using List.reverseRecOn with
  | nil =>
    intro _
    exact ⟨hmarked, congrArg (AList.lookup id) hsame⟩
  | append_singleton post op ih =>
    rw [← List.cons_append, ← List.append_assoc, trace_snoc]
    intro h
    obtain ⟨hstatus, hlookup⟩ := ih fun t ht => h t (List.mem_append_left _ ht)
    have hw := wrote_taken digest (pre ++ .cancelAgreement id grant :: post) op
    refine ⟨cancelled_step hw hstatus, ?_⟩
    rw [taken_before] at ha
    rcases agreement_step hw (h _ (by simp)) (hlookup.trans ha) with hafter | ⟨-, hlive, -⟩
    · exact hafter.trans ha.symm
    · exact absurd hstatus hlive

/-- Where every call restores the terms, the terms hold. -/
theorem terms_hold (ops : List CommerceOp)
    (h : ∀ t ∈ trace digest ops, RestoresTerms t.before t.op) : TermsHold digest ops where
  granted id t ht a ha hne := by
    rcases agreement_step (wrote_of_mem_trace digest ht) (h t ht) ha with hsame | ⟨hgranted, -⟩
    · exact absurd hsame hne
    · exact hgranted
  cancelled id grant r pre post hops hreply := by
    subst hops
    exact (cancelled_of_restores digest pre hreply post h).2
  parties id t ht a ha := by
    rcases agreement_step (wrote_of_mem_trace digest ht) (h t ht) ha with hsame | ⟨-, -, b, hb⟩
    · exact ⟨a, hsame, rfl, rfl, rfl, rfl⟩
    · exact ⟨b, hb⟩
  distinct := (distinct_of_restores digest ops h).1

end Runs

/-! ## An agreement admitted again -/

theorem callPrice_nonneg : (0 : ℤ) ≤ 2 := by decide

def sampleAgreement : CommercialAgreement where
  agreementId := "a"
  legalEntityId := "legal"
  accountId := "acct"
  productId := "product"
  offerId := "offer"
  billingAuthority := .externalCommerce
  pricing := [{ dimensionId := "calls", unit := "call", unitPriceMicros := 2,
                price_nonneg := callPrice_nonneg }]
  effectiveAt := "2026-08-19T00:00:00Z"

def sampleAmendment : CommerceOp :=
  .amendAgreement "a" [{ dimensionId := "calls", unit := "call", unitPriceMicros := 3 }] "offer-2"
    (some ⟨"g", "brce", "a", "agreement.amend", "authority:test"⟩)

theorem terms_hold_sample :
    TermsHold Canon.reference.digest [.admitAgreement sampleAgreement, sampleAmendment] := by
  refine terms_hold _ _ fun t ht => ?_
  rcases List.mem_pair.mp ht with rfl | rfl
  · exact fun _ => Or.inl rfl
  · exact fun _ _ _ => by decide

/-- The same id and billing authority with another account replace the agreement without a
grant. -/
theorem terms_rewritten :
    ¬ TermsHold Canon.reference.digest [.admitAgreement sampleAgreement,
      .admitAgreement { sampleAgreement with accountId := "other" }] := by
  intro h
  have hbefore : (run Canon.reference.digest [.admitAgreement sampleAgreement]).agreements.lookup
      "a" = some sampleAgreement := by
    decide +kernel
  have hafter : (run Canon.reference.digest [.admitAgreement sampleAgreement,
      .admitAgreement { sampleAgreement with accountId := "other" }]).agreements.lookup "a" =
      some { sampleAgreement with accountId := "other" } := by
    decide +kernel
  have hlast : taken Canon.reference.digest [.admitAgreement sampleAgreement]
      (.admitAgreement { sampleAgreement with accountId := "other" }) ∈ trace Canon.reference.digest
        [.admitAgreement sampleAgreement,
          .admitAgreement { sampleAgreement with accountId := "other" }] := by
    rw [← List.singleton_append, trace_snoc]
    exact List.mem_append_right _ (List.mem_singleton_self _)
  obtain ⟨b, hb, hparties⟩ := h.parties "a" _ hlast sampleAgreement hbefore
  rw [taken_after, List.singleton_append, hafter] at hb
  obtain rfl := Option.some.inj hb
  exact absurd hparties.account (by decide)

end Commerce

end GymAct
