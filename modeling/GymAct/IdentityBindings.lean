import GymAct.Commerce

/-!
# External identities

`bind_identity` refuses to bind an issuer's subject to another account or tenant than a stored
binding does, and stores bindings under ids that the caller chooses. A binding under an id in use
takes the place of the one there, whose subject is then free to be bound to another tenant.

`bound_once` : where no call writes over the only binding of another subject, two calls that bind
one subject bind it to one account and tenant, whatever other operations the run has.
-/

namespace GymAct

namespace Commerce

/-- What a call binds. -/
structure Identity where
  accountId : String
  tenantId : String
  issuer : String
  subject : String
  deriving DecidableEq, Repr

namespace Identity

/-- The call that binds it under an id. -/
def bind (b : Identity) (id : String) : CommerceOp :=
  .bindIdentity id b.accountId b.tenantId b.issuer b.subject

def SameSubject (b c : Identity) : Prop := b.issuer = c.issuer ∧ b.subject = c.subject

def SameAccount (b c : Identity) : Prop := b.accountId = c.accountId ∧ b.tenantId = c.tenantId

theorem SameSubject.symm {b c : Identity} (h : b.SameSubject c) : c.SameSubject b :=
  ⟨h.1.symm, h.2.symm⟩

theorem SameSubject.trans {b c d : Identity} (h : b.SameSubject c) (h' : c.SameSubject d) :
    b.SameSubject d := ⟨h.1.trans h'.1, h.2.trans h'.2⟩

theorem SameAccount.symm {b c : Identity} (h : b.SameAccount c) : c.SameAccount b :=
  ⟨h.1.symm, h.2.symm⟩

theorem SameAccount.trans {b c d : Identity} (h : b.SameAccount c) (h' : c.SameAccount d) :
    b.SameAccount d := ⟨h.1.trans h'.1, h.2.trans h'.2⟩

theorem bind_inj {b c : Identity} {id id' : String} (h : b.bind id = c.bind id') :
    id = id' ∧ b = c := by
  obtain ⟨rfl, haccount, htenant, hissuer, hsubject⟩ := CommerceOp.bindIdentity.inj h
  obtain ⟨_, _, _, _⟩ := b
  obtain ⟨_, _, _, _⟩ := c
  exact ⟨rfl, congr (congr (congr (congrArg mk haccount) htenant) hissuer) hsubject⟩

end Identity

def IdentityBinding.identity (x : IdentityBinding) : Identity :=
  ⟨x.accountId, x.tenantId, x.issuer, x.subject⟩

/-- What is bound under an id. -/
def World.bound (w : World) (id : String) : Option Identity :=
  (w.identityBindings.lookup id).map IdentityBinding.identity

/-- The checks of `bind_identity` pass. -/
def Accepts (w : World) (id : String) (b : Identity) : Prop :=
  "" ∉ [id, b.accountId, b.tenantId, b.issuer, b.subject] ∧
    ∀ key c, w.bound key = some c → c.SameSubject b → c.SameAccount b

/-- A call that is accepted writes over a binding of another subject that is bound under no other
id. -/
def Displaces (w : World) (op : CommerceOp) : Prop :=
  ∃ id b, op = Identity.bind b id ∧ Accepts w id b ∧ ∃ c, w.bound id = some c ∧
    ¬c.SameSubject b ∧ ∀ key d, key ≠ id → w.bound key = some d → ¬d.SameSubject c

/-- A call of a run that binds. -/
def Taken.Binds (t : Taken) (id : String) (b : Identity) : Prop :=
  t.op = b.bind id ∧ ∃ r, t.reply = .ok (.ok r)

/-- Calls that bind one subject bind it to one account and tenant. -/
def BoundOnce (digest : Value → Except PyError String) (ops : List CommerceOp) : Prop :=
  ∀ t ∈ trace digest ops, ∀ t' ∈ trace digest ops, ∀ id b id' b', t.Binds id b → t'.Binds id' b' →
    b.SameSubject b' → b.SameAccount b'

/-! ## What a call does to the bindings -/

/-- A call leaves the bindings, or binds what it accepts. -/
inductive Rebinds (w : World) : CommerceOp → Reply → World → Prop
  | stays {op reply w'} : w'.identityBindings = w.identityBindings →
      (∀ id b r, op = Identity.bind b id → reply ≠ .ok (.ok r)) → Rebinds w op reply w'
  | binds {id b r w'} (receipt : String) : Accepts w id b →
      w'.identityBindings = w.identityBindings.insert id
        ⟨id, b.accountId, b.tenantId, b.issuer, b.subject, receipt⟩ →
      Rebinds w (b.bind id) (.ok (.ok r)) w'

section Operations

variable {digest : Value → Except PyError String} {w : World}

theorem bound_eq_some {id : String} {b : Identity} :
    w.bound id = some b ↔ ∃ x, w.identityBindings.lookup id = some x ∧ x.identity = b :=
  Option.map_eq_some_iff

theorem rebinds_bindIdentity (id : String) (b : Identity) :
    Fallible.wp (Except.map Prod.snd <$>
        bindIdentity digest id b.accountId b.tenantId b.issuer b.subject)
      (fun r => Rebinds w (b.bind id) (.ok r)) (fun e => Rebinds w (b.bind id) (.error e)) False
      w := by
  rw [Fallible.wp_map, bindIdentity, Fallible.wp_bind, Fallible.wp_get]
  split_ifs with hempty hconflict
  · exact .stays rfl fun _ _ _ _ h => by cases h
  · exact .stays rfl fun _ _ _ _ h => by cases h
  · rw [Fallible.wp_bind]
    refine wp_store (fun e => .stays rfl fun _ _ _ _ h => by cases h) fun r _ _ => ?_
    simp only [Fallible.wp_bind, Fallible.wp_modify, Fallible.wp_pure]
    refine .binds r.receiptId ⟨hempty, fun key c hbound hsame => ?_⟩ rfl
    obtain ⟨x, hx, rfl⟩ := bound_eq_some.mp hbound
    by_contra hother
    refine hconflict ⟨⟨key, x⟩, AList.mem_lookup_iff.mp hx, hsame.1, hsame.2, ?_⟩
    by_contra hagrees
    rw [not_or, not_not, not_not] at hagrees
    exact hother ⟨hagrees.2, hagrees.1⟩

/-! ### The other operations -/

/-- A program leaves the bindings as they are. -/
def Leaves {α : Type} (p : CommerceM α) : Prop :=
  Fallible.Keeps (fun w w' => w'.identityBindings = w.identityBindings) (fun _ => True) p

section Leaves

variable {α β : Type}

theorem Leaves.bind {p : CommerceM β} {f : β → CommerceM α} (hp : Leaves p)
    (hf : ∀ b, Leaves (f b)) : Leaves (p >>= f) :=
  Fallible.Keeps.bind (fun _ _ _ h h' => h'.trans h) hp fun b _ => hf b

theorem leaves_pure (a : α) : Leaves (pure a : CommerceM α) := fun _ => ⟨trivial, rfl⟩

theorem leaves_get : Leaves (get : CommerceM World) := fun _ => ⟨trivial, rfl⟩

theorem leaves_modify {g : World → World}
    (hg : ∀ w, (g w).identityBindings = w.identityBindings) : Leaves (modify g : CommerceM Unit) :=
  fun w => ⟨trivial, hg w⟩

theorem leaves_refuse (code : RefusalCode) (reason : String) :
    Leaves (refuse code reason : CommerceM (Answer α)) := leaves_pure _

theorem leaves_store {operation subjectId authority replayKey : String} {consequence : Payload} :
    Leaves (store digest operation subjectId authority consequence replayKey) := fun _ =>
  wp_store (fun _ => rfl) fun _ _ _ => ⟨trivial, rfl⟩

theorem leaves_brce {operation subjectId replayKey : String} {grant : Option BrokerGrant}
    {consequence : Payload} : Leaves (brce digest operation subjectId grant consequence replayKey) :=
  fun _ => wp_brce (fun _ => rfl) (fun _ => ⟨trivial, rfl⟩) fun _ _ _ _ _ => ⟨trivial, rfl⟩

theorem leaves_index {t : Table α} {key : String} : Leaves (index t key) := fun _ =>
  wp_index (fun _ => rfl) fun _ _ => ⟨trivial, rfl⟩

theorem leaves_indexAll {t : Table α} {keys : List String} : Leaves (indexAll t keys) := by
  intro w
  apply wp_indexAll
  · exact fun _ => rfl
  · exact fun _ _ => ⟨trivial, rfl⟩

end Leaves

theorem leaves_admitAgreement (agreement : CommercialAgreement) :
    Leaves (admitAgreement digest agreement) := by
  refine leaves_get.bind fun w => ?_
  split
  · exact leaves_pure _
  · dsimp only
    exact Leaves.bind (leaves_modify fun _ => rfl) fun _ => leaves_store.bind fun _ =>
      Leaves.bind (leaves_modify fun _ => rfl) fun _ => leaves_pure _

theorem leaves_applyEntitlementEvent (source : String) (event : EntitlementEvent)
    (grant : Option BrokerGrant) : Leaves (applyEntitlementEvent digest source event grant) := by
  refine leaves_get.bind fun w => ?_
  split
  · exact leaves_pure _
  · refine leaves_brce.bind fun r => ?_
    split
    · exact leaves_pure _
    · exact Leaves.bind (leaves_modify fun _ => rfl) fun _ => leaves_pure _

theorem leaves_observeUsage (observation : UsageObservation) :
    Leaves (observeUsage digest observation) :=
  Leaves.bind (leaves_modify fun _ => rfl) fun _ => leaves_store

theorem leaves_admitUsage (observationId : String) : Leaves (admitUsage digest observationId) := by
  refine leaves_get.bind fun w => leaves_index.bind fun observation => ?_
  split
  · exact leaves_refuse _ _
  · split_ifs
    · exact leaves_refuse _ _
    · exact leaves_refuse _ _
    · refine leaves_index.bind fun agreement => ?_
      split_ifs
      · exact leaves_refuse _ _
      · exact Leaves.bind (leaves_modify fun _ => rfl) fun _ => leaves_store.bind fun _ => leaves_pure _

theorem leaves_constructMeterIntent (intentId : String) (observationIds : List String) :
    Leaves (constructMeterIntent digest intentId observationIds) := by
  refine leaves_get.bind fun w => leaves_indexAll.bind fun observations => ?_
  split_ifs
  · exact leaves_refuse _ _
  split
  · refine leaves_index.bind fun entitlement => leaves_index.bind fun agreement => ?_
    split
    · exact leaves_refuse _ _
    · exact leaves_store.bind fun _ => Leaves.bind (leaves_modify fun _ => rfl) fun _ => leaves_pure _
  · exact leaves_refuse _ _

theorem leaves_admitExternalAcceptance (acceptance : ExternalAcceptance) :
    Leaves (admitExternalAcceptance digest acceptance) := by
  refine leaves_get.bind fun w => ?_
  split
  · exact leaves_pure _
  · exact Leaves.bind (leaves_modify fun _ => rfl) fun _ => leaves_store.bind fun _ => leaves_pure _

theorem leaves_reconcile (settlementId acceptanceId : String) :
    Leaves (reconcile digest settlementId acceptanceId) := by
  refine leaves_get.bind fun w => ?_
  split
  · exact leaves_refuse _ _
  · refine leaves_index.bind fun intent => ?_
    split_ifs
    · exact leaves_refuse _ _
    · exact leaves_store.bind fun _ => Leaves.bind (leaves_modify fun _ => rfl) fun _ => leaves_pure _

theorem leaves_admitExternalBlockerEvidence (blocker : ExternalBlocker) (evidenceRef : String)
    (origin : EvidenceOrigin) :
    Leaves (admitExternalBlockerEvidence digest blocker evidenceRef origin) := by
  unfold admitExternalBlockerEvidence
  split_ifs
  · exact leaves_pure _
  · exact Leaves.bind (leaves_modify fun _ => rfl) fun _ => leaves_store.bind fun _ => leaves_pure _

theorem leaves_changeAgreement (verb : String) (change : CommercialAgreement → CommercialAgreement)
    (consequence : ℤ → Payload) (agreementId : String) (grant : Option BrokerGrant) :
    Leaves (changeAgreement digest verb change consequence agreementId grant) := by
  refine leaves_get.bind fun w => ?_
  split
  · exact leaves_refuse _ _
  split_ifs
  · exact leaves_refuse _ _
  · refine leaves_brce.bind fun r => ?_
    split
    · exact leaves_pure _
    · exact Leaves.bind (leaves_modify fun _ => rfl) fun _ => leaves_pure _

theorem leaves_cancelAgreement (agreementId : String) (grant : Option BrokerGrant) :
    Leaves (cancelAgreement digest agreementId grant) := by
  refine leaves_get.bind fun w => ?_
  split_ifs
  · exact leaves_pure _
  · exact leaves_pure _
  · refine leaves_brce.bind fun r => ?_
    split
    · exact leaves_pure _
    · exact Leaves.bind (leaves_modify fun _ => rfl) fun _ => leaves_pure _

theorem leaves_constructAdjustment (kind adjustmentId agreementId : String) (amountMicros : ℤ)
    (reason : String) :
    Leaves (constructAdjustment digest kind adjustmentId agreementId amountMicros reason) := by
  refine leaves_get.bind fun w => ?_
  split_ifs
  · exact leaves_refuse _ _
  · exact leaves_refuse _ _
  · exact leaves_store.bind fun _ => Leaves.bind (leaves_modify fun _ => rfl) fun _ => leaves_pure _

theorem leaves_projectSupport (entitlementId : String) :
    Leaves (projectSupport digest entitlementId) := by
  refine leaves_get.bind fun w => ?_
  split
  · exact leaves_refuse _ _
  · dsimp only
    split_ifs
    · exact leaves_refuse _ _
    · exact leaves_store.bind fun _ => Leaves.bind (leaves_modify fun _ => rfl) fun _ => leaves_pure _

theorem leaves_admitPackaging (evidence : PackagingEvidence) :
    Leaves (admitPackaging digest evidence) := by
  unfold admitPackaging
  split_ifs
  · exact leaves_refuse _ _
  · exact leaves_store.bind fun _ => Leaves.bind (leaves_modify fun _ => rfl) fun _ => leaves_pure _

theorem Leaves.map {α β : Type} {p : CommerceM β} (hp : Leaves p) (f : β → α) : Leaves (f <$> p) :=
  Fallible.Keeps.map hp

variable (digest)

/-- Every call but `bind_identity` leaves the bindings. -/
theorem leaves_program {op : CommerceOp} (hop : ∀ id b, op ≠ Identity.bind b id) :
    Leaves (op.program digest) := by
  cases op with
  | admitAgreement a => exact (leaves_admitAgreement a).map _
  | applyEntitlementEvent s e g => exact (leaves_applyEntitlementEvent s e g).map _
  | observeUsage o => exact (leaves_observeUsage o).map _
  | admitUsage id => exact (leaves_admitUsage id).map _
  | constructMeterIntent id ids => exact (leaves_constructMeterIntent id ids).map _
  | admitExternalAcceptance a => exact (leaves_admitExternalAcceptance a).map _
  | reconcile s a => exact (leaves_reconcile s a).map _
  | admitExternalBlockerEvidence b e o => exact leaves_admitExternalBlockerEvidence b e o
  | bindIdentity id a t i s => exact absurd rfl (hop id ⟨a, t, i, s⟩)
  | amendAgreement id p o g => exact (leaves_changeAgreement _ _ _ id g).map _
  | renewAgreement id e g => exact (leaves_changeAgreement _ _ _ id g).map _
  | cancelAgreement id g => exact leaves_cancelAgreement id g
  | constructCredit id a m r => exact (leaves_constructAdjustment _ id a m r).map _
  | constructRefund id a m r => exact (leaves_constructAdjustment _ id a m r).map _
  | projectSupport id => exact (leaves_projectSupport id).map _
  | admitPackaging e => exact (leaves_admitPackaging e).map _

/-- What any call does to the bindings. -/
theorem step_rebinds (w : World) (op : CommerceOp) :
    Rebinds w op (step digest w op).1 (step digest w op).2 := by
  have h : Fallible.wp (op.program digest) (fun r => Rebinds w op (.ok r))
      (fun e => Rebinds w op (.error e)) False w := by
    by_cases hop : ∃ id b, op = Identity.bind b id
    · obtain ⟨id, b, rfl⟩ := hop
      exact rebinds_bindIdentity id b
    · have hother : ∀ id b, op ≠ Identity.bind b id := fun id b h => hop ⟨id, b, h⟩
      exact (leaves_program digest hother).wp
        (fun r w' _ hsame => .stays hsame fun id b _ h => absurd h (hother id b))
        fun e w' hsame => .stays hsame fun id b _ h => absurd h (hother id b)
  unfold Fallible.wp at h
  unfold step
  split at h
  · exact h.elim
  · next a w' hrun => rw [hrun]; exact h
  · next e w' hrun => rw [hrun]; exact h

end Operations

/-! ## One account for each subject -/

section Runs

variable (digest : Value → Except PyError String) {w w' : World} {op : CommerceOp} {reply : Reply}

/-- Stored bindings of one subject are of one account and tenant. -/
def Consistent (w : World) : Prop :=
  ∀ id b id' b', w.bound id = some b → w.bound id' = some b' → b.SameSubject b' → b.SameAccount b'

/-- A subject is bound to an account and a tenant. -/
def Holds (w : World) (b : Identity) : Prop :=
  ∃ id c, w.bound id = some c ∧ c.SameSubject b ∧ c.SameAccount b

theorem bound_insert {id key receipt : String} {b : Identity}
    (h : w'.identityBindings = w.identityBindings.insert id
      ⟨id, b.accountId, b.tenantId, b.issuer, b.subject, receipt⟩) :
    w'.bound key = if key = id then some b else w.bound key := by
  unfold World.bound
  rw [h, Table.lookup_insert]
  split_ifs <;> rfl

theorem bound_of_eq (h : w'.identityBindings = w.identityBindings) : w'.bound = w.bound := by
  funext id
  rw [World.bound, h]
  rfl

theorem consistent_step (hw : Consistent w) (h : Rebinds w op reply w') : Consistent w' := by
  cases h with
  | stays hsame =>
    unfold Consistent
    rw [bound_of_eq hsame]
    exact hw
  | @binds id b r w' receipt haccepts hinsert =>
    intro key c key' c' hc hc' hsame
    rw [bound_insert hinsert] at hc hc'
    split_ifs at hc hc' with hkey hkey'
    · obtain rfl := Option.some.inj hc
      obtain rfl := Option.some.inj hc'
      exact ⟨rfl, rfl⟩
    · obtain rfl := Option.some.inj hc
      exact (haccepts.2 key' c' hc' hsame.symm).symm
    · obtain rfl := Option.some.inj hc'
      exact haccepts.2 key c hc hsame
    · exact hw key c key' c' hc hc' hsame

/-- What is bound stays bound, unless a call displaces it. -/
theorem holds_step (hw : Consistent w) (hkept : ¬Displaces w op) (h : Rebinds w op reply w')
    {b : Identity} (hb : Holds w b) : Holds w' b := by
  cases h with
  | stays hsame =>
    unfold Holds
    rw [bound_of_eq hsame]
    exact hb
  | @binds id new r w' receipt haccepts hinsert =>
    obtain ⟨key, c, hc, hsubject, haccount⟩ := hb
    by_cases hkey : key = id
    · subst hkey
      by_cases hsame : c.SameSubject new
      · have hnew : w'.bound key = some new := by rw [bound_insert hinsert, if_pos rfl]
        have hagrees := haccepts.2 key c hc hsame
        exact ⟨key, new, hnew, hsame.symm.trans hsubject, hagrees.symm.trans haccount⟩
      · -- the subject is bound under another id too
        have hother : ∃ key' d, key' ≠ key ∧ w.bound key' = some d ∧ d.SameSubject c := by
          by_contra hnone
          exact hkept ⟨key, new, rfl, haccepts, c, hc, hsame, fun key' d hne hd hsame' =>
            hnone ⟨key', d, hne, hd, hsame'⟩⟩
        obtain ⟨key', d, hne, hd, hsame'⟩ := hother
        refine ⟨key', d, by rw [bound_insert hinsert, if_neg hne, hd], hsame'.trans hsubject, ?_⟩
        exact (hw key' d key c hd hc hsame').trans haccount
    · exact ⟨key, c, by rw [bound_insert hinsert, if_neg hkey, hc], hsubject, haccount⟩

/-- A call that binds has accepted what it binds, and holds it. -/
theorem holds_of_binds (h : Rebinds w op reply w') {id : String} {b : Identity}
    (hop : op = b.bind id) {r : CommerceReceipt} (hreply : reply = .ok (.ok r)) :
    Accepts w id b ∧ Holds w' b := by
  cases h with
  | stays _ hnone => exact absurd hreply (hnone id b r hop)
  | @binds id' b' r' w' receipt haccepts hinsert =>
    obtain ⟨rfl, rfl⟩ := Identity.bind_inj hop
    have hnew : w'.bound id' = some b' := by rw [bound_insert hinsert, if_pos rfl]
    exact ⟨haccepts, id', b', hnew, ⟨rfl, rfl⟩, ⟨rfl, rfl⟩⟩

/-- What holds after a run that displaces nothing. -/
structure Recorded (ops : List CommerceOp) : Prop where
  consistent : Consistent (run digest ops)
  holds : ∀ t ∈ trace digest ops, ∀ id b, t.Binds id b → Holds (run digest ops) b
  once : BoundOnce digest ops

theorem recorded_snoc {ops : List CommerceOp} (h : Recorded digest ops)
    (hkept : ¬Displaces (run digest ops) op) : Recorded digest (ops ++ [op]) := by
  have hstep : Rebinds (run digest ops) op (taken digest ops op).reply (run digest (ops ++ [op])) := by
    rw [run_snoc]
    exact step_rebinds digest _ op
  have hagrees : ∀ t ∈ trace digest ops, ∀ id b id' b', t.Binds id b →
      (taken digest ops op).Binds id' b' → b.SameSubject b' → b.SameAccount b' := by
    intro t ht id b id' b' hb ⟨hop, r, hreply⟩ hsame
    obtain ⟨key, c, hc, hsubject, haccount⟩ := h.holds t ht id b hb
    have haccepts := (holds_of_binds hstep hop hreply).1
    exact haccount.symm.trans (haccepts.2 key c hc (hsubject.trans hsame))
  refine ⟨consistent_step h.consistent hstep, ?_, ?_⟩
  · intro t ht id b hb
    rw [trace_snoc] at ht
    rcases List.mem_append.mp ht with ht | ht
    · exact holds_step h.consistent hkept hstep (h.holds t ht id b hb)
    · obtain rfl := List.mem_singleton.mp ht
      obtain ⟨hop, r, hreply⟩ := hb
      exact (holds_of_binds hstep hop hreply).2
  · intro t ht t' ht' id b id' b' hb hb' hsame
    rw [trace_snoc] at ht ht'
    rcases List.mem_append.mp ht with ht | ht <;> rcases List.mem_append.mp ht' with ht' | ht'
    · exact h.once t ht t' ht' id b id' b' hb hb' hsame
    · obtain rfl := List.mem_singleton.mp ht'
      exact hagrees t ht id b id' b' hb hb' hsame
    · obtain rfl := List.mem_singleton.mp ht
      exact (hagrees t' ht' id' b' id b hb' hb hsame.symm).symm
    · obtain rfl := List.mem_singleton.mp ht
      obtain rfl := List.mem_singleton.mp ht'
      obtain ⟨-, rfl⟩ := Identity.bind_inj (hb.1.symm.trans hb'.1)
      exact ⟨rfl, rfl⟩

theorem recorded_of_kept (ops : List CommerceOp)
    (h : ∀ t ∈ trace digest ops, ¬Displaces t.before t.op) : Recorded digest ops := by
  induction ops using List.reverseRecOn with
  | nil =>
    refine ⟨fun id b _ _ hbound _ _ => ?_, fun _ ht => ?_, fun _ ht => ?_⟩
    · have hnone : (run digest []).bound id = none := rfl
      rw [hnone] at hbound
      cases hbound
    · exact absurd ht List.not_mem_nil
    · exact absurd ht List.not_mem_nil
  | append_singleton ops op ih =>
    rw [trace_snoc] at h
    have hlast := h _ (List.mem_append_right _ (List.mem_singleton_self _))
    exact recorded_snoc digest (ih fun t ht => h t (List.mem_append_left _ ht)) hlast

/-- In every run none of whose calls displaces a binding, calls that bind one subject bind it to one
account and tenant. -/
theorem bound_once (ops : List CommerceOp)
    (h : ∀ t ∈ trace digest ops, ¬Displaces t.before t.op) : BoundOnce digest ops :=
  (recorded_of_kept digest ops h).once

end Runs

/-! ## An id used again -/

def sampleIdentity : Identity where
  accountId := "acct"
  tenantId := "t1"
  issuer := "idp"
  subject := "alice"

theorem not_displaces_of_free {w : World} {id : String} {b : Identity} (h : w.bound id = none) :
    ¬Displaces w (b.bind id) := by
  rintro ⟨id', b', hop, -, c, hc, -⟩
  obtain ⟨rfl, -⟩ := Identity.bind_inj hop
  rw [h] at hc
  cases hc

theorem exists_receipt {reply : Reply} (h : (reply.toOption.bind Except.toOption).isSome = true) :
    ∃ r, reply = .ok (.ok r) := by
  rcases reply with e | refusal | r
  · cases h
  · cases h
  · exact ⟨r, rfl⟩

/-- One subject under two ids. -/
theorem bound_once_sample :
    BoundOnce Canon.reference.digest [sampleIdentity.bind "b", sampleIdentity.bind "c"] := by
  refine bound_once _ _ fun t ht => ?_
  rcases List.mem_pair.mp ht with rfl | rfl
  · exact not_displaces_of_free rfl
  · have hfree : (run Canon.reference.digest [sampleIdentity.bind "b"]).bound "c" = none := by
      decide +kernel
    exact not_displaces_of_free hfree

/-- Another subject is bound under the id of a first one, which is then bound to a second
tenant. -/
theorem bound_twice :
    ¬BoundOnce Canon.reference.digest [sampleIdentity.bind "b",
      { sampleIdentity with subject := "bob" }.bind "b",
      { sampleIdentity with tenantId := "t2" }.bind "c"] := by
  intro h
  have hfirst : ((taken Canon.reference.digest [] (sampleIdentity.bind "b")).reply.toOption.bind
      Except.toOption).isSome = true := by decide +kernel
  have hthird : ((taken Canon.reference.digest [sampleIdentity.bind "b",
      { sampleIdentity with subject := "bob" }.bind "b"]
      ({ sampleIdentity with tenantId := "t2" }.bind "c")).reply.toOption.bind
      Except.toOption).isSome = true := by decide +kernel
  have hsame := h _ (List.mem_cons_self ..) _
    (List.mem_cons_of_mem _ (List.mem_cons_of_mem _ (List.mem_cons_self ..))) "b" sampleIdentity "c"
    { sampleIdentity with tenantId := "t2" } ⟨rfl, exists_receipt hfirst⟩
    ⟨rfl, exists_receipt hthird⟩ ⟨rfl, rfl⟩
  exact absurd hsame.2 (by decide)

end Commerce

end GymAct
