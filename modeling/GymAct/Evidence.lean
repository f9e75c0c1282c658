import GymAct.Models

/-!
# The receipt ledger

`MemoryReceiptLedger` of `evidence.py` : an append-only list of receipts, each record
chained to the one before by digest, with an index by receipt id and an index by
idempotency key. An append is refused when the receipt id is taken by another receipt,
or when the idempotency key was first used with another episode or capability. The key
index keeps the first record of a key and is one for all episodes.
-/

namespace GymAct

/-- A Python dict with string keys. -/
abbrev Dict (V : Type) := String → Option V

/-- One hash-chained receipt record. -/
structure EvidenceRecord where
  sequence : ℕ
  previousDigest : Option String
  receiptDigest : String
  recordDigest : String
  receipt : Receipt
  deriving DecidableEq, Repr

/-- What an append can raise. -/
inductive LedgerError
  /-- `ValueError("RECEIPT_ID_CONFLICT")`. -/
  | receiptIdConflict
  /-- `ValueError("IDEMPOTENCY_KEY_REUSE_WITH_DIFFERENT_INTENT")`. -/
  | idempotencyKeyReuse
  | canonicalization (e : PyError)
  /-- Another ledger's own exception. -/
  | other (e : PyError)
  deriving DecidableEq, Repr

/-- `_same_intent` : the episode and the capability agree. -/
def sameIntent (a b : Receipt) : Bool :=
  a.episodeId == b.episodeId && a.capabilityRef == b.capabilityRef

theorem sameIntent_iff {a b : Receipt} :
    sameIntent a b = true ↔ a.episodeId = b.episodeId ∧ a.capabilityRef = b.capabilityRef := by
  simp [sameIntent]

structure MemoryReceiptLedger where
  records : List EvidenceRecord := []
  byReceipt : Dict EvidenceRecord := fun _ => none
  byIdempotencyKey : Dict EvidenceRecord := fun _ => none

namespace MemoryReceiptLedger

variable (C : Canon)

/-- `_record_digest`. -/
def recordDigest (sequence : ℕ) (previousDigest : Option String) (receiptDigest : String) :
    Except PyError String :=
  C.digest (.dict [("sequence", .int sequence), ("previous_digest", .ofOption previousDigest),
    ("receipt_digest", .str receiptDigest)])

/-- Whether the key of a receipt is free for its episode and capability. -/
def keyAdmits (L : MemoryReceiptLedger) (receipt : Receipt) : Bool :=
  match receipt.idempotencyKey with
  | none => true
  | some key =>
    match L.byIdempotencyKey key with
    | none => true
    | some keyPrior => sameIntent keyPrior.receipt receipt

/-- The record an append would add. -/
def nextRecord (L : MemoryReceiptLedger) (receipt : Receipt) : Except PyError EvidenceRecord := do
  let sequence := L.records.length
  let previous := L.records.getLast?.map EvidenceRecord.recordDigest
  let receiptDigest ← C.digest receipt.modelDump
  let recordDigest ← recordDigest C sequence previous receiptDigest
  pure ⟨sequence, previous, receiptDigest, recordDigest, receipt⟩

/-- `setdefault` of the key index. -/
def indexKey (L : MemoryReceiptLedger) (record : EvidenceRecord) : Dict EvidenceRecord :=
  match record.receipt.idempotencyKey with
  | none => L.byIdempotencyKey
  | some key =>
    match L.byIdempotencyKey key with
    | some _ => L.byIdempotencyKey
    | none => Function.update L.byIdempotencyKey key (some record)

/-- The ledger with one more record. -/
def push (L : MemoryReceiptLedger) (record : EvidenceRecord) : MemoryReceiptLedger where
  records := L.records ++ [record]
  byReceipt := Function.update L.byReceipt record.receipt.receiptId (some record)
  byIdempotencyKey := L.indexKey record

/-- `append`. -/
def append (L : MemoryReceiptLedger) (receipt : Receipt) :
    Except LedgerError (MemoryReceiptLedger × EvidenceRecord) :=
  match L.byReceipt receipt.receiptId with
  | some prior => if prior.receipt.pyEq receipt then .ok (L, prior) else .error .receiptIdConflict
  | none =>
    if L.keyAdmits receipt then
      match L.nextRecord C receipt with
      | .error e => .error (.canonicalization e)
      | .ok record => .ok (L.push record, record)
    else .error .idempotencyKeyReuse

/-- `find`. -/
def find (L : MemoryReceiptLedger) (receiptId : String) : Option EvidenceRecord :=
  L.byReceipt receiptId

/-- The body of the loop of `verify`, from position `sequence` after `previous`. -/
def verifyFrom : ℕ → Option String → List EvidenceRecord → Except PyError Bool
  | _, _, [] => .ok true
  | sequence, previous, record :: rest =>
    if record.sequence ≠ sequence ∨ record.previousDigest ≠ previous then .ok false
    else do
      let expectedReceipt ← C.digest record.receipt.modelDump
      if record.receiptDigest ≠ expectedReceipt then pure false
      else
        let expectedRecord ← recordDigest C record.sequence record.previousDigest record.receiptDigest
        if record.recordDigest ≠ expectedRecord then pure false
        else verifyFrom (sequence + 1) (some record.recordDigest) rest

/-- `verify`. -/
def verify (L : MemoryReceiptLedger) : Except PyError Bool := verifyFrom C 0 none L.records

/-! ## What an append does -/

variable {C} {L L' : MemoryReceiptLedger} {receipt : Receipt} {record : EvidenceRecord}

theorem nextRecord_receipt (h : L.nextRecord C receipt = .ok record) :
    record.receipt = receipt := by
  unfold nextRecord at h
  cases hd : C.digest receipt.modelDump with
  | error e => simp [hd, bind, Except.bind] at h
  | ok d =>
    cases hr : recordDigest C L.records.length
        (L.records.getLast?.map EvidenceRecord.recordDigest) d with
    | error e => simp [hd, hr, bind, Except.bind] at h
    | ok d' =>
      simp only [hd, hr, bind, Except.bind, pure, Except.pure, Except.ok.injEq] at h
      rw [← h]

/-- An append that succeeds finds the receipt there, or adds one record for it. -/
theorem append_cases (h : L.append C receipt = .ok (L', record)) :
    (L' = L ∧ L.byReceipt receipt.receiptId = some record ∧ record.receipt.pyEq receipt = true) ∨
    (L.byReceipt receipt.receiptId = none ∧ L.keyAdmits receipt = true ∧
      record.receipt = receipt ∧ L' = L.push record) := by
  unfold append at h
  split at h
  case h_1 prior hprior =>
    split at h
    case isTrue heq =>
      simp only [Except.ok.injEq, Prod.mk.injEq] at h
      obtain ⟨rfl, rfl⟩ := h
      exact Or.inl ⟨rfl, hprior, heq⟩
    case isFalse => cases h
  case h_2 hnone =>
    split at h
    case isTrue hkey =>
      split at h
      · cases h
      case h_2 rec' hrec =>
        simp only [Except.ok.injEq, Prod.mk.injEq] at h
        obtain ⟨rfl, rfl⟩ := h
        exact Or.inr ⟨hnone, hkey, nextRecord_receipt hrec, rfl⟩
    case isFalse => cases h

/-- The chain digests exist while the sequence number fits a double. -/
theorem nextRecord_ok (hC : C.Total) (hlen : L.records.length ≤ 2 ^ 53 - 1)
    (hdump : receipt.modelDump.isCanonical = true) :
    ∃ record, L.nextRecord C receipt = .ok record := by
  obtain ⟨d, hd⟩ := hC.digest hdump
  have hcanon : (Value.dict [("sequence", .int L.records.length),
      ("previous_digest", .ofOption (L.records.getLast?.map EvidenceRecord.recordDigest)),
      ("receipt_digest", .str d)]).isCanonical = true := by
    have : (Value.int L.records.length).isCanonical = true := by
      simp only [Value.isCanonical, decide_eq_true_eq]
      omega
    simp [this]
  obtain ⟨d', hd'⟩ := hC.digest hcanon
  exact ⟨_, by simp only [nextRecord, hd, recordDigest, hd', bind, Except.bind]; rfl⟩

/-- An append succeeds when the receipt id is new, its key is free for its intent, the
dump is canonical and the sequence number fits a double. -/
theorem append_ok (hC : C.Total) (hnew : L.byReceipt receipt.receiptId = none)
    (hkey : L.keyAdmits receipt = true) (hdump : receipt.modelDump.isCanonical = true)
    (hlen : L.records.length ≤ 2 ^ 53 - 1) :
    ∃ record, record.receipt = receipt ∧ L.append C receipt = .ok (L.push record, record) := by
  obtain ⟨record, hrec⟩ := nextRecord_ok hC hlen hdump
  exact ⟨record, nextRecord_receipt hrec, by simp [append, hnew, hkey, hrec]⟩

@[simp] theorem push_records : (L.push record).records = L.records ++ [record] := rfl

@[simp] theorem push_byReceipt :
    (L.push record).byReceipt =
      Function.update L.byReceipt record.receipt.receiptId (some record) := rfl

theorem indexKey_of_none (h : record.receipt.idempotencyKey = none) :
    L.indexKey record = L.byIdempotencyKey := by
  simp [indexKey, h]

theorem indexKey_of_taken {key : String} {prior : EvidenceRecord}
    (h : record.receipt.idempotencyKey = some key) (hk : L.byIdempotencyKey key = some prior) :
    L.indexKey record = L.byIdempotencyKey := by
  simp [indexKey, h, hk]

theorem indexKey_of_free {key : String} (h : record.receipt.idempotencyKey = some key)
    (hk : L.byIdempotencyKey key = none) :
    L.indexKey record = Function.update L.byIdempotencyKey key (some record) := by
  simp [indexKey, h, hk]

/-- The key index keeps what it has. -/
theorem push_byIdempotencyKey_of_some {key : String} {prior : EvidenceRecord}
    (h : L.byIdempotencyKey key = some prior) :
    (L.push record).byIdempotencyKey key = some prior := by
  change L.indexKey record key = some prior
  cases hk : record.receipt.idempotencyKey with
  | none => rwa [indexKey_of_none hk]
  | some k =>
    cases hl : L.byIdempotencyKey k with
    | some p => rwa [indexKey_of_taken hk hl]
    | none =>
      have hne : key ≠ k := fun e => by rw [e, hl] at h; cases h
      rwa [indexKey_of_free hk hl, Function.update_of_ne hne]

/-- A key that is new after a push is the key of the pushed record. -/
theorem push_byIdempotencyKey_cases {key : String} {prior : EvidenceRecord}
    (h : (L.push record).byIdempotencyKey key = some prior) :
    L.byIdempotencyKey key = some prior ∨
      record.receipt.idempotencyKey = some key ∧ prior = record := by
  change L.indexKey record key = some prior at h
  cases hk : record.receipt.idempotencyKey with
  | none => exact Or.inl (by rwa [indexKey_of_none hk] at h)
  | some k =>
    cases hl : L.byIdempotencyKey k with
    | some p => exact Or.inl (by rwa [indexKey_of_taken hk hl] at h)
    | none =>
      rw [indexKey_of_free hk hl] at h
      by_cases hkk : key = k
      · subst hkk
        exact Or.inr ⟨rfl, by simpa [eq_comm] using h⟩
      · exact Or.inl (by rwa [Function.update_of_ne hkk] at h)

end MemoryReceiptLedger

end GymAct
