import Mathlib.Data.List.Chain
import GymAct.Commerce

/-!
# The lifecycle of an entitlement

Only `apply_entitlement_event` writes an entitlement. `states` is what was stored under an
entitlement id over a run, one entry for each change.

`entitlement_lifecycle` : in every run the states start PENDING at revision 1, follow
`_TRANSITIONS` with increasing revisions, and stop at CANCELLED or EXPIRED. Every change was
made under a grant that names it and stored a receipt, no event is applied twice, and a
refused event changes nothing.
-/

namespace GymAct

namespace Commerce

/-! ## What was stored -/

/-- The entitlement that a call stored under an id. -/
def Taken.stored (id : String) (t : Taken) : Option Entitlement :=
  if t.after.entitlements.lookup id = t.before.entitlements.lookup id then none
  else t.after.entitlements.lookup id

/-- The event that a call applied. -/
def Taken.appliedEvent (t : Taken) : Option String :=
  match t.op, t.reply with
  | .applyEntitlementEvent _ event _, .ok (.ok _) => some event.eventId
  | _, _ => none

section Lifecycle

variable (digest : Value → Except PyError String)

/-- The successive states of an entitlement. -/
def states (id : String) (ops : List CommerceOp) : List Entitlement :=
  (trace digest ops).filterMap (Taken.stored id)

/-- The events applied in a run, in order. -/
def appliedEvents (ops : List CommerceOp) : List String :=
  (trace digest ops).filterMap Taken.appliedEvent

end Lifecycle

/-- One state after another. -/
structure Follows (a b : Entitlement) : Prop where
  transition : ∃ kind, transitions a.state kind = some b.state
  revision_lt : a.revision < b.revision
  agreement_eq : b.agreementId = a.agreementId
  tenant_eq : b.tenantId = a.tenantId

/-- The end of a lifecycle. -/
def EntitlementState.terminal (s : EntitlementState) : Prop := s = .cancelled ∨ s = .expired

theorem not_follows_of_terminal {a b : Entitlement} (h : a.state.terminal) : ¬ Follows a b := by
  rintro ⟨⟨kind, hkind⟩, -, -, -⟩
  rcases h with h | h <;> rw [h] at hkind <;> cases kind <;> cases hkind

/-- The change of an entitlement that a call made : by an event, under a grant, with a
receipt. -/
structure Applied (t : Taken) (id : String) (source : String) (event : EntitlementEvent)
    (grant : BrokerGrant) (r : CommerceReceipt) : Prop where
  op_eq : t.op = .applyEntitlementEvent source event (some grant)
  reply_eq : t.reply = .ok (.ok r)
  names : event.entitlementId = id
  grant_subject : grant.subjectId = id
  grant_operation : grant.allowedOperation = "entitlement.apply-event"
  receipt_stored : t.after.receipts.lookup r.receiptId = some r
  receipt_names : r.operation = "entitlement.apply-event" ∧ r.subjectId = id
  created : t.before.entitlements.lookup id = none →
    event.kind = .create ∧ event.revision = 1 ∧
      t.after.entitlements.lookup id = some (candidate event .pending)
  moved : ∀ current, t.before.entitlements.lookup id = some current →
    ∃ target, transitions current.state event.kind = some target ∧
      t.after.entitlements.lookup id = some (candidate event target) ∧
      Follows current (candidate event target)

/-! ## One event -/

section Event

variable {w : World} {source : String} {event : EntitlementEvent} {target : EntitlementState}

/-- What the checks before the broker establish. -/
theorem eventTarget_eq_ok (h : eventTarget w source event = .ok target) :
    event.eventId ∉ w.processedEvents ∧
      (w.entitlements.lookup event.entitlementId = none →
        event.kind = .create ∧ event.revision = 1 ∧ target = .pending) ∧
      ∀ current, w.entitlements.lookup event.entitlementId = some current →
        transitions current.state event.kind = some target ∧
          Follows current (candidate event target) := by
  unfold eventTarget at h
  split at h
  · cases h
  split at h
  · cases h
  split at h
  · cases h
  split at h
  · cases h
  next hprocessed =>
  split at h
  · cases h
  refine ⟨hprocessed, ?_⟩
  split at h
  · next hnone =>
    split_ifs at h with hcreate
    obtain rfl := Except.ok.inj h
    refine ⟨fun _ => ⟨not_not.mp fun hk => hcreate (Or.inl hk),
      not_not.mp fun hr => hcreate (Or.inr hr), rfl⟩, fun current hsome => ?_⟩
    rw [hnone] at hsome
    cases hsome
  · next current hsome =>
    split_ifs at h with hmove hstale
    split at h
    · cases h
    · next hkind =>
      obtain rfl := Except.ok.inj h
      refine ⟨fun hnone => absurd (hsome.symm.trans hnone) (by simp), fun current' hsome' => ?_⟩
      obtain rfl := Option.some.inj (hsome.symm.trans hsome')
      exact ⟨hkind, ⟨_, hkind⟩, not_le.mp hstale, (not_not.mp fun ha => hmove (Or.inl ha)).symm,
        (not_not.mp fun ht => hmove (Or.inr ht)).symm⟩

end Event

/-- A call leaves the entitlements and the processed events alone and applies nothing, or
it applies one event. -/
theorem entitlement_cases {t : Taken} (h : Wrote t.before t.op t.reply t.after) :
    (t.after.entitlements = t.before.entitlements ∧
        t.after.processedEvents = t.before.processedEvents ∧ t.appliedEvent = none) ∨
      ∃ source event grant r, Applied t event.entitlementId source event grant r ∧
        event.eventId ∉ t.before.processedEvents ∧
        (∀ id, id ≠ event.entitlementId →
          t.after.entitlements.lookup id = t.before.entitlements.lookup id) ∧
        t.after.processedEvents = insert event.eventId t.before.processedEvents := by
  obtain ⟨before, op, reply, after⟩ := t
  dsimp only at h ⊢
  have hkeep (ht : after.tables.entitlements = before.tables.entitlements ∧
      after.tables.processedEvents = before.tables.processedEvents)
      (hop : ∀ source event grant, op ≠ .applyEntitlementEvent source event grant) :
      after.entitlements = before.entitlements ∧ after.processedEvents = before.processedEvents ∧
        Taken.appliedEvent ⟨before, op, reply, after⟩ = none := by
    refine ⟨ht.1, ht.2, ?_⟩
    unfold Taken.appliedEvent
    split
    · exact absurd ‹_› (hop _ _ _)
    · rfl
  cases h with
  | raised op e =>
    refine Or.inl ⟨rfl, rfl, ?_⟩
    unfold Taken.appliedEvent
    split <;> simp_all
  | refused op refusal =>
    refine Or.inl ⟨rfl, rfl, ?_⟩
    unfold Taken.appliedEvent
    split <;> simp_all
  | aside hop reply _ htables =>
    refine Or.inl (hkeep (by rw [htables]; exact ⟨rfl, rfl⟩) ?_)
    rintro _ _ _ rfl
    cases hop
  | applied htarget hgrant hreceipt hr htables =>
    rename_i source event grant target r
    obtain ⟨hnew, hcreated, hmoved⟩ := eventTarget_eq_ok htarget
    have hentitlements : after.entitlements =
        before.entitlements.insert event.entitlementId (candidate event target) :=
      congrArg Tables.entitlements htables
    have hself : after.entitlements.lookup event.entitlementId = some (candidate event target) := by
      rw [hentitlements, Table.lookup_insert, if_pos rfl]
    refine Or.inr ⟨source, event, grant, r, ⟨rfl, rfl, rfl, hgrant.1, hgrant.2, hreceipt, hr, ?_,
      fun current hcurrent => ⟨target, (hmoved current hcurrent).1, hself,
        (hmoved current hcurrent).2⟩⟩, hnew, fun id hid => ?_,
      congrArg Tables.processedEvents htables⟩
    · intro hnone
      obtain ⟨hkind, hrevision, rfl⟩ := hcreated hnone
      exact ⟨hkind, hrevision, hself⟩
    · rw [hentitlements, Table.lookup_insert, if_neg hid]
  | changed hop _ _ _ reply htables =>
    refine Or.inl (hkeep (by rw [htables]; exact ⟨rfl, rfl⟩) ?_)
    rintro _ _ _ rfl
    rcases hop with ⟨_, _, _, h, _⟩ | ⟨_, _, h, _⟩ <;> cases h
  | admitted _ _ _ htables | observed _ _ htables | usageAdmitted _ _ htables
  | constructed _ _ _ _ _ _ htables | accepted _ _ htables | settled _ _ _ _ htables
  | cancelled _ _ htables =>
    exact Or.inl (hkeep (by rw [htables]; exact ⟨rfl, rfl⟩) (by rintro _ _ _ ⟨⟩))

theorem Applied.stored {t : Taken} {id source : String} {event : EntitlementEvent}
    {grant : BrokerGrant} {r : CommerceReceipt} (h : Applied t id source event grant r) :
    ∃ c, t.after.entitlements.lookup id = some c ∧ t.stored id = some c ∧
      (t.before.entitlements.lookup id = none → c.state = .pending ∧ c.revision = 1) ∧
      ∀ current, t.before.entitlements.lookup id = some current → Follows current c := by
  obtain hnone | ⟨current, hcurrent⟩ : t.before.entitlements.lookup id = none ∨
      ∃ current, t.before.entitlements.lookup id = some current := by
    rw [← Option.ne_none_iff_exists']
    exact eq_or_ne _ _
  · obtain ⟨-, hrevision, hafter⟩ := h.created hnone
    refine ⟨_, hafter, ?_, fun _ => ⟨rfl, hrevision⟩, fun current hsome => ?_⟩
    · simp [Taken.stored, hafter, hnone]
    · exact absurd (hnone.symm.trans hsome) (by simp)
  · obtain ⟨target, -, hafter, hfollows⟩ := h.moved current hcurrent
    refine ⟨_, hafter, ?_, fun hnone => absurd (hcurrent.symm.trans hnone) (by simp),
      fun current' hsome => ?_⟩
    · have hne : candidate event target ≠ current := fun heq =>
        hfollows.revision_lt.ne (congrArg Entitlement.revision heq).symm
      simp [Taken.stored, hafter, hcurrent, hne]
    · obtain rfl := Option.some.inj (hcurrent.symm.trans hsome)
      exact hfollows

theorem Taken.stored_of_eq {t : Taken} {id : String}
    (h : t.after.entitlements.lookup id = t.before.entitlements.lookup id) : t.stored id = none :=
  if_pos h

/-- What a call stores under an id follows what was stored, and an unchanged id is one that
no event was applied to. -/
theorem stored_cases {t : Taken} (h : Wrote t.before t.op t.reply t.after) (id : String) :
    (t.stored id = none ∧ t.after.entitlements.lookup id = t.before.entitlements.lookup id) ∨
      ∃ c source event grant r, Applied t id source event grant r ∧ t.stored id = some c ∧
        t.after.entitlements.lookup id = some c ∧
        (t.before.entitlements.lookup id = none → c.state = .pending ∧ c.revision = 1) ∧
        ∀ current, t.before.entitlements.lookup id = some current → Follows current c := by
  rcases entitlement_cases h with ⟨hsame, -, -⟩ | ⟨source, event, grant, r, ha, -, hother, -⟩
  · have heq : t.after.entitlements.lookup id = t.before.entitlements.lookup id := by rw [hsame]
    exact Or.inl ⟨Taken.stored_of_eq heq, heq⟩
  · by_cases hid : id = event.entitlementId
    · subst hid
      obtain ⟨c, hafter, hstored, hfirst, hnext⟩ := ha.stored
      exact Or.inr ⟨c, source, event, grant, r, ha, hstored, hafter, hfirst, hnext⟩
    · exact Or.inl ⟨Taken.stored_of_eq (hother id hid), hother id hid⟩

/-! ## Whole runs -/

section Lifecycle

variable (digest : Value → Except PyError String)

/-- The law of the entitlements of a run. -/
structure Lifecycle (ops : List CommerceOp) : Prop where
  /-- The last state of an entitlement is what is stored. -/
  stored : ∀ id, (run digest ops).entitlements.lookup id = (states digest id ops).getLast?
  starts : ∀ id, ∀ c ∈ (states digest id ops).head?, c.state = .pending ∧ c.revision = 1
  follows : ∀ id, (states digest id ops).IsChain Follows
  ends : ∀ id pre c post, states digest id ops = pre ++ c :: post → c.state.terminal → post = []
  /-- Every change is one of an event, under a grant and with a receipt. -/
  applied : ∀ id, ∀ t ∈ trace digest ops,
    t.after.entitlements.lookup id ≠ t.before.entitlements.lookup id →
      ∃ source event grant r, Applied t id source event grant r
  /-- No event is applied twice. -/
  once : (appliedEvents digest ops).Nodup
  refused : ∀ source event grant refusal, ∀ t ∈ trace digest ops,
    t.op = .applyEntitlementEvent source event grant → t.reply = .ok (.error refusal) →
      t.after = t.before

/-- A refused event leaves the world alone. -/
theorem after_eq_of_refused {t : Taken} {source : String} {event : EntitlementEvent}
    {grant : Option BrokerGrant} {refusal : Refusal} (h : Wrote t.before t.op t.reply t.after)
    (hop : t.op = .applyEntitlementEvent source event grant)
    (hreply : t.reply = .ok (.error refusal)) : t.after = t.before := by
  obtain ⟨before, op, reply, after⟩ := t
  dsimp only at h hop hreply ⊢
  subst hop hreply
  cases h with
  | refused => rfl
  | aside hop => cases hop
  | changed hop => rcases hop with ⟨_, _, _, h, _⟩ | ⟨_, _, h, _⟩ <;> cases h

variable {digest}

theorem states_snoc (id : String) (ops : List CommerceOp) (op : CommerceOp) :
    states digest id (ops ++ [op]) =
      states digest id ops ++ ((taken digest ops op).stored id).toList := by
  rw [states, trace_snoc, List.filterMap_append, ← states]
  cases h : (taken digest ops op).stored id <;> simp [h]

theorem appliedEvents_snoc (ops : List CommerceOp) (op : CommerceOp) :
    appliedEvents digest (ops ++ [op]) =
      appliedEvents digest ops ++ (taken digest ops op).appliedEvent.toList := by
  rw [appliedEvents, trace_snoc, List.filterMap_append, ← appliedEvents]
  cases h : (taken digest ops op).appliedEvent <;> simp [h]

/-- The events applied so far are the processed ones. -/
theorem appliedEvents_spec (ops : List CommerceOp) :
    (appliedEvents digest ops).Nodup ∧
      ∀ id, id ∈ (run digest ops).processedEvents ↔ id ∈ appliedEvents digest ops := by
  induction ops using List.reverseRecOn with
  | nil => exact ⟨List.nodup_nil, fun id => Iff.rfl⟩
  | append_singleton ops op ih =>
    rw [appliedEvents_snoc, ← taken_after]
    rcases entitlement_cases (wrote_taken digest ops op) with
      ⟨-, hsame, hnone⟩ | ⟨source, event, grant, r, ha, hnew, -, hinsert⟩
    · rw [hnone, hsame]
      simpa using ih
    · have hevent : (taken digest ops op).appliedEvent = some event.eventId := by
        rw [Taken.appliedEvent, ha.op_eq, ha.reply_eq]
      rw [hevent, hinsert]
      refine ⟨?_, fun id => ?_⟩
      · rw [Option.toList_some, List.nodup_append_comm, List.singleton_append, List.nodup_cons]
        exact ⟨fun hmem => hnew ((ih.2 _).mpr hmem), ih.1⟩
      · simp [ih.2, or_comm]

theorem states_spec (id : String) (ops : List CommerceOp) :
    (run digest ops).entitlements.lookup id = (states digest id ops).getLast? ∧
      (∀ c ∈ (states digest id ops).head?, c.state = .pending ∧ c.revision = 1) ∧
      (states digest id ops).IsChain Follows := by
  induction ops using List.reverseRecOn with
  | nil => exact ⟨rfl, by simp [states], by simp [states]⟩
  | append_singleton ops op ih =>
    obtain ⟨hlast, hstarts, hfollows⟩ := ih
    rw [states_snoc, ← taken_after]
    rcases stored_cases (wrote_taken digest ops op) id with
      ⟨hnone, heq⟩ | ⟨c, source, event, grant, r, -, hsome, hafter, hfirst, hnext⟩
    · rw [hnone, heq]
      simpa using ⟨hlast, hstarts, hfollows⟩
    · rw [taken_before, hlast] at hfirst hnext
      rw [hsome, hafter, Option.toList_some]
      refine ⟨by simp, fun c' hc' => ?_, ?_⟩
      · rw [List.head?_append] at hc'
        rcases List.eq_nil_or_concat (states digest id ops) with hnil | ⟨pre, last, hsnoc⟩
        · rw [hnil] at hc' hfirst
          obtain rfl : c = c' := by simpa using hc'
          exact hfirst rfl
        · refine hstarts c' ?_
          rw [hsnoc] at hc' ⊢
          cases pre <;> simpa using hc'
      · refine List.isChain_append.mpr ⟨hfollows, List.isChain_singleton _, fun a ha b hb => ?_⟩
        obtain rfl : c = b := by simpa using hb
        exact hnext a ha

variable (digest)

/-- In every run the entitlements live by their lifecycle. -/
theorem entitlement_lifecycle (ops : List CommerceOp) : Lifecycle digest ops where
  stored id := (states_spec id ops).1
  starts id := (states_spec id ops).2.1
  follows id := (states_spec id ops).2.2
  ends id pre c post hstates hc := by
    have hchain : (states digest id ops).IsChain Follows := (states_spec id ops).2.2
    rw [hstates] at hchain
    cases post with
    | nil => rfl
    | cons b post =>
      have hcb := (List.isChain_append.mp hchain).2.1
      exact absurd (List.isChain_cons_cons.mp hcb).1 (not_follows_of_terminal hc)
  applied id t ht hne := by
    rcases stored_cases (wrote_of_mem_trace digest ht) id with
      ⟨-, heq⟩ | ⟨-, source, event, grant, r, ha, -⟩
    · exact absurd heq hne
    · exact ⟨source, event, grant, r, ha⟩
  once := (appliedEvents_spec ops).1
  refused _ _ _ _ t ht hop hreply :=
    after_eq_of_refused (wrote_of_mem_trace digest ht) hop hreply

end Lifecycle

end Commerce

end GymAct
