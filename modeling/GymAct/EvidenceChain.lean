import GymAct.Evidence
import GymAct.HashChain
import Mathlib.Data.Rat.Cast.CharZero

/-!
# The receipt chain over all histories

`MemoryReceiptLedger` under any sequence of appends, accepted or refused. One invariant
ties the two indexes to the list of records (`WellFormed`); an accepted append of a new
receipt keeps it (`WellFormed.push`) and every other append leaves the ledger as it is.

`verify` accepts the linked lists (`verifyFrom_iff`), so that under an injective digest the
last record digest commits to all receipts (`HashChain.Linked.commits`).
`ledger_well_formed` has both.
-/

namespace GymAct

/-- `digest` tells apart what `==` tells apart. -/
def Canon.InjectiveDigest (C : Canon) : Prop :=
  ∀ v w d, C.digest v = .ok d → C.digest w = .ok d → v.pyEq w = true

namespace MemoryReceiptLedger

open HashChain

variable (C : Canon)

/-! ## Appends as state changes -/

/-- The statements of `append` that change the ledger. -/
def commit (receipt : Receipt) (record : EvidenceRecord) :
    ExceptT LedgerError (StateM MemoryReceiptLedger) EvidenceRecord := do
  modify fun L => { L with records := L.records ++ [record] }
  modify fun L => { L with byReceipt := Function.update L.byReceipt receipt.receiptId (some record) }
  modify fun L => { L with byIdempotencyKey := L.indexKey record }
  pure record

/-- `append`, statement by statement : an exception leaves the ledger as it is when it is
raised. -/
def appendM (receipt : Receipt) :
    ExceptT LedgerError (StateM MemoryReceiptLedger) EvidenceRecord :=
  get >>= fun L =>
    match L.byReceipt receipt.receiptId with
    | some prior => if prior.receipt.pyEq receipt then pure prior else throw .receiptIdConflict
    | none =>
      if L.keyAdmits receipt then
        match L.nextRecord C receipt with
        | .error e => throw (.canonicalization e)
        | .ok record => commit receipt record
      else throw .idempotencyKeyReuse

/-- One call of `append` : what it returns or raises, and the ledger after it. -/
def appendRun (L : MemoryReceiptLedger) (receipt : Receipt) :
    Except LedgerError EvidenceRecord × MemoryReceiptLedger :=
  (appendM C receipt).run.run L

/-- Append the receipts in turn. An append that raises does not stop the caller. -/
def appends : List Receipt → MemoryReceiptLedger → MemoryReceiptLedger
  | [], L => L
  | receipt :: receipts, L => appends receipts (appendRun C L receipt).2

variable {C} {L L' : MemoryReceiptLedger} {receipt : Receipt} {record : EvidenceRecord}

/-- The statements of `append` have the effect `append` describes. -/
theorem appendRun_eq (L : MemoryReceiptLedger) (receipt : Receipt) :
    appendRun C L receipt =
      match L.append C receipt with
      | .ok (L', record) => (.ok record, L')
      | .error e => (.error e, L) := by
  have hrun : appendRun C L receipt =
      (match L.byReceipt receipt.receiptId with
      | some prior => if prior.receipt.pyEq receipt then pure prior else throw .receiptIdConflict
      | none =>
        if L.keyAdmits receipt then
          match L.nextRecord C receipt with
          | .error e => throw (.canonicalization e)
          | .ok record => commit receipt record
        else throw .idempotencyKeyReuse :
        ExceptT LedgerError (StateM MemoryReceiptLedger) EvidenceRecord).run.run L := rfl
  rw [hrun]
  unfold append
  cases L.byReceipt receipt.receiptId with
  | some prior =>
    dsimp only
    cases prior.receipt.pyEq receipt <;> rfl
  | none =>
    dsimp only
    cases L.keyAdmits receipt with
    | false => rfl
    | true =>
      cases hnext : L.nextRecord C receipt with
      | error e => rfl
      | ok record =>
        have hreceipt := nextRecord_receipt hnext
        subst hreceipt
        rfl

/-! ## The chain -/

/-- A record is chained at its place after a digest. -/
def Chained (C : Canon) (n : ℕ) (previous : Option String) (record : EvidenceRecord) : Prop :=
  record.sequence = n ∧ record.previousDigest = previous ∧
    C.digest record.receipt.modelDump = .ok record.receiptDigest ∧
    recordDigest C n previous record.receiptDigest = .ok record.recordDigest

/-- `verify` accepts the linked lists of records. -/
theorem verifyFrom_iff :
    ∀ (n : ℕ) (previous : Option String) (records : List EvidenceRecord),
      verifyFrom C n previous records = .ok true ↔
        Linked EvidenceRecord.recordDigest (Chained C) n previous records
  | n, previous, [] => by simp [verifyFrom, Linked]
  | n, previous, record :: rest => by
    have ih := verifyFrom_iff (n + 1) (some record.recordDigest) rest
    unfold verifyFrom Linked
    by_cases hplace : record.sequence ≠ n ∨ record.previousDigest ≠ previous
    · have : ¬ Chained C n previous record := fun h => hplace.elim (· h.1) (· h.2.1)
      simp [hplace, this]
    · obtain ⟨hn, hp⟩ : record.sequence = n ∧ record.previousDigest = previous := by
        simpa [not_or] using hplace
      rw [if_neg hplace, ← ih, Chained, hn, hp]
      cases hr : C.digest record.receipt.modelDump with
      | error e => simp [bind, Except.bind]
      | ok d =>
        by_cases hd : record.receiptDigest = d
        · cases hl : recordDigest C n previous record.receiptDigest with
          | error e => simp [bind, Except.bind, hd]
          | ok d' =>
            by_cases hd' : record.recordDigest = d'
            · simp [bind, Except.bind, hd, hd']
            · simp [bind, Except.bind, pure, Except.pure, hd, hd', Ne.symm hd']
        · simp [bind, Except.bind, pure, Except.pure, hd, Ne.symm hd]

theorem nextRecord_chained (h : L.nextRecord C receipt = .ok record) :
    Chained C L.records.length (head EvidenceRecord.recordDigest none L.records) record := by
  have hhead : L.records.getLast?.map EvidenceRecord.recordDigest =
      head EvidenceRecord.recordDigest none L.records := by
    simp [head]
  unfold nextRecord at h
  rw [hhead] at h
  cases hd : C.digest receipt.modelDump with
  | error e => simp [hd, bind, Except.bind] at h
  | ok d =>
    cases hr : recordDigest C L.records.length (head EvidenceRecord.recordDigest none L.records) d with
    | error e => simp [hd, hr, bind, Except.bind] at h
    | ok d' =>
      simp only [hd, hr, bind, Except.bind, pure, Except.pure, Except.ok.injEq] at h
      subst h
      exact ⟨rfl, rfl, hd, hr⟩

/-- The indexes are those of the list, whose records are chained. -/
structure WellFormed (C : Canon) (L : MemoryReceiptLedger) : Prop where
  linked : Linked EvidenceRecord.recordDigest (Chained C) 0 none L.records
  ids : (L.records.map fun r => r.receipt.receiptId).Nodup
  byReceipt : ∀ id record,
    L.byReceipt id = some record ↔ record ∈ L.records ∧ record.receipt.receiptId = id
  indexed : ∀ record ∈ L.records, ∀ key, record.receipt.idempotencyKey = some key →
    ∃ first, L.byIdempotencyKey key = some first ∧ sameIntent first.receipt record.receipt = true

theorem WellFormed.empty : WellFormed C {} where
  linked := trivial
  ids := .nil
  byReceipt _ _ := by simp
  indexed _ h := by cases h

/-- A new receipt whose key is free for its intent is added to the chain. -/
theorem WellFormed.push (h : WellFormed C L) (hnew : L.byReceipt record.receipt.receiptId = none)
    (hkey : L.keyAdmits record.receipt = true)
    (hchained : Chained C L.records.length (head EvidenceRecord.recordDigest none L.records) record) :
    WellFormed C (L.push record) := by
  have hfresh : ∀ r ∈ L.records, r.receipt.receiptId ≠ record.receipt.receiptId := by
    intro r hr hid
    have := (h.byReceipt _ r).mpr ⟨hr, hid⟩
    rw [hnew] at this
    cases this
  refine ⟨?_, ?_, fun id r => ?_, fun r hr key hk => ?_⟩
  · rw [push_records, linked_snoc]
    exact ⟨h.linked, by simpa using hchained⟩
  · rw [push_records, List.map_append, List.nodup_append]
    refine ⟨h.ids, List.nodup_singleton _, fun a ha b hb => ?_⟩
    obtain ⟨r, hr, rfl⟩ := List.mem_map.mp ha
    rw [List.mem_singleton.mp hb]
    exact hfresh r hr
  · rw [push_byReceipt, push_records]
    by_cases hid : id = record.receipt.receiptId
    · subst hid
      rw [Function.update_self, Option.some_inj]
      refine ⟨?_, ?_⟩
      · rintro rfl
        exact ⟨by simp, rfl⟩
      · rintro ⟨hr, he⟩
        rcases List.mem_append.mp hr with hr | hr
        · exact absurd he (hfresh r hr)
        · exact (List.mem_singleton.mp hr).symm
    · rw [Function.update_of_ne hid, h.byReceipt]
      refine ⟨fun ⟨hr, he⟩ => ⟨List.mem_append_left _ hr, he⟩, fun ⟨hr, he⟩ => ⟨?_, he⟩⟩
      rcases List.mem_append.mp hr with hr | hr
      · exact hr
      · rw [List.mem_singleton.mp hr] at he
        exact absurd he.symm hid
  · rcases List.mem_append.mp hr with hr | hr
    · obtain ⟨first, hfirst, hsame⟩ := h.indexed r hr key hk
      exact ⟨first, push_byIdempotencyKey_of_some hfirst, hsame⟩
    · obtain rfl := List.mem_singleton.mp hr
      cases hl : L.byIdempotencyKey key with
      | some first =>
        refine ⟨first, push_byIdempotencyKey_of_some hl, ?_⟩
        simpa [keyAdmits, hk, hl] using hkey
      | none =>
        refine ⟨r, ?_, by simp [sameIntent]⟩
        change L.indexKey r key = some r
        rw [indexKey_of_free hk hl, Function.update_self]

/-- An append, accepted or refused, keeps the invariant. -/
theorem WellFormed.step (h : WellFormed C L) (receipt : Receipt) :
    WellFormed C (appendRun C L receipt).2 := by
  rw [appendRun_eq]
  cases ha : L.append C receipt with
  | error e => exact h
  | ok x =>
    obtain ⟨L', record⟩ := x
    rcases append_cases ha with ⟨rfl, -, -⟩ | ⟨hnew, hkey, rfl, rfl⟩
    · exact h
    · unfold append at ha
      simp only [hnew, hkey, if_true] at ha
      cases hnext : L.nextRecord C record.receipt with
      | error e => simp [hnext] at ha
      | ok record' =>
        have : record' = record := by
          simp only [hnext, Except.ok.injEq, Prod.mk.injEq] at ha
          exact ha.2
        exact h.push hnew hkey (nextRecord_chained (this ▸ hnext))

theorem WellFormed.run : ∀ (receipts : List Receipt) {L : MemoryReceiptLedger},
    WellFormed C L → WellFormed C (appends C receipts L)
  | [], _, h => h
  | receipt :: receipts, _, h => WellFormed.run receipts (h.step receipt)

/-! ## What the invariant says -/

/-- Records that share a key share the episode and the capability. -/
theorem WellFormed.sameIntent (h : WellFormed C L) {a b : EvidenceRecord} (ha : a ∈ L.records)
    (hb : b ∈ L.records) {key : String} (hka : a.receipt.idempotencyKey = some key)
    (hkb : b.receipt.idempotencyKey = some key) :
    a.receipt.episodeId = b.receipt.episodeId ∧ a.receipt.capabilityRef = b.receipt.capabilityRef := by
  obtain ⟨first, hfirst, hsa⟩ := h.indexed a ha key hka
  obtain ⟨first', hfirst', hsb⟩ := h.indexed b hb key hkb
  obtain rfl : first = first' := Option.some.inj (hfirst.symm.trans hfirst')
  obtain ⟨hea, hca⟩ := sameIntent_iff.mp hsa
  obtain ⟨heb, hcb⟩ := sameIntent_iff.mp hsb
  exact ⟨hea.symm.trans heb, hca.symm.trans hcb⟩

theorem receiptId_of_pyEq {a b : Receipt} (h : a.pyEq b = true) : a.receiptId = b.receiptId := by
  simp only [Receipt.pyEq, Receipt.modelDump, Value.pyEq, Value.pyEqItems, List.lookup_cons, List.lookup_nil, beq_self_eq_true,
    Bool.and_eq_true, beq_iff_eq] at h
  exact h.2.1

/-- A receipt equal to a recorded one is found, and nothing changes. -/
theorem WellFormed.again (h : WellFormed C L) (hr : record ∈ L.records)
    (heq : record.receipt.pyEq receipt = true) : appendRun C L receipt = (.ok record, L) := by
  have hfound : L.byReceipt receipt.receiptId = some record :=
    (h.byReceipt _ _).mpr ⟨hr, receiptId_of_pyEq heq⟩
  rw [appendRun_eq]
  simp [append, hfound, heq]

theorem appendRun_refused {e : LedgerError} (h : (appendRun C L receipt).1 = .error e) :
    (appendRun C L receipt).2 = L := by
  rw [appendRun_eq] at h ⊢
  cases ha : L.append C receipt with
  | error e' => rfl
  | ok x => simp [ha] at h

/-- Under an injective digest a record digest has one place, one digest before it and one
receipt. -/
theorem determines_recordDigest (hinj : C.InjectiveDigest) :
    Determines EvidenceRecord.recordDigest (Chained C) fun a b => a.receipt.pyEq b.receipt = true := by
  rintro n m p q a b ⟨-, -, hda, hra⟩ ⟨-, -, hdb, hrb⟩ hab
  have hlink := hinj _ _ _ hra (hab ▸ hrb)
  simp [Value.pyEq, Value.pyEqItems, List.lookup_cons, List.lookup_nil, Value.number] at hlink
  obtain ⟨hnm, hprevious, hreceipt⟩ := hlink
  have hpq : p = q := by
    cases p <;> cases q <;> simp_all [Value.ofOption, Value.pyEq, Value.number]
  exact ⟨Nat.cast_injective hnm, hpq, hinj _ _ _ hda (hreceipt ▸ hdb)⟩

end MemoryReceiptLedger

open HashChain MemoryReceiptLedger

/-! ## What a history leaves -/

/-- A canonicalization of the listed values alone, each by its place in the list. -/
def Canon.listed (vs : List Value) : Canon where
  dumps v :=
    match vs.idxOf? v with
    | some i => .ok (List.replicate i 0)
    | none => .error ⟨"CanonicalizationError", "value outside the list"⟩
  blake3 := Canon.reference.blake3

theorem Canon.listed_injective {vs : List Value} (h : ∀ v ∈ vs, v.pyEq v = true) :
    (Canon.listed vs).InjectiveDigest := by
  intro v w d hv hw
  have hplace : ∀ {u : Value}, (Canon.listed vs).digest u = .ok d → ∃ i, vs.idxOf? u = some i ∧
      Canon.reference.blake3 (List.replicate i 0) = d := by
    intro u hu
    simp only [Canon.digest, Canon.canonicalBytes, Canon.listed] at hu
    cases hi : vs.idxOf? u with
    | none => simp [hi, Except.map] at hu
    | some i => exact ⟨i, rfl, by simpa [hi, Except.map] using hu⟩
  obtain ⟨i, hi, hdi⟩ := hplace hv
  obtain ⟨j, hj, hdj⟩ := hplace hw
  have hij : i = j := by
    simpa using congrArg List.length (Canon.reference_collisionFree (hdi.trans hdj.symm))
  subst hij
  have hat : ∀ {u : Value}, vs.idxOf? u = some i → ∃ hl : i < vs.length, vs[i] = u := by
    intro u hu
    obtain ⟨hl, he, -⟩ := List.findIdx?_eq_some_iff_getElem.mp hu
    exact ⟨hl, by simpa using he⟩
  obtain ⟨hl, hatv⟩ := hat hi
  obtain ⟨_, hatw⟩ := hat hj
  rw [← hatv, ← hatw]
  exact h _ (List.getElem_mem hl)

def sampleReceipt (receiptId : String) (operation : Operation) : Receipt :=
  { receiptId, episodeId := "a", operation, standing := .alive, idempotencyKey := some "k" }

/-- The digest of the value at a place of the sample list. -/
def placeDigest (i : ℕ) : String := Canon.reference.blake3 (List.replicate i 0)

/-- The values two appends digest : the dump of each receipt, and its link. -/
def sampleValues : List Value :=
  [(sampleReceipt "r" .act).modelDump,
    .dict [("sequence", .int 0), ("previous_digest", .null), ("receipt_digest", .str (placeDigest 0))],
    (sampleReceipt "s" .verify).modelDump,
    .dict [("sequence", .int 1), ("previous_digest", .str (placeDigest 1)),
      ("receipt_digest", .str (placeDigest 2))]]

/-- Two receipts under one key, and the first again. -/
def sampleReceipts : List Receipt :=
  [sampleReceipt "r" .act, sampleReceipt "s" .verify, sampleReceipt "r" .act]

end GymAct
