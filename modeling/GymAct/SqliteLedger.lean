import GymAct.EvidenceChain
import GymAct.Reparse

/-!
# The durable ledger

`SQLiteReceiptLedger` of `sqlite_ledger.py` : the chain of `MemoryReceiptLedger` in a table,
with the canonical text of every receipt in place of the receipt. A row is read by parsing
that text, so the ledger compares, verifies and returns receipts as they read back.

Under the calls of `Faithful` runs it is the memory ledger (`ledgers_agree`). Two receipts
tell them apart : one with a wide float in its effects is accepted by both and then fails
`verify` here (`ledgers_diverge`), and one outside RFC 8785 is refused here before its id
and key are looked at.
-/

namespace GymAct

/-- A row of `receipt_evidence`. The text of `receipt_json` is the document it denotes. -/
structure EvidenceRow where
  sequence : ℕ
  receiptId : String
  previousDigest : Option String
  receiptDigest : String
  recordDigest : String
  receiptJson : Value
  deriving DecidableEq, Repr

/-- `_record`; `none` is a `ValidationError`. -/
def EvidenceRow.record (row : EvidenceRow) : Option EvidenceRecord :=
  (Receipt.modelValidate row.receiptJson).map fun receipt =>
    { sequence := row.sequence, previousDigest := row.previousDigest,
      receiptDigest := row.receiptDigest, recordDigest := row.recordDigest, receipt }

/-- `json_extract(receipt_json, '$.idempotency_key')`. -/
def EvidenceRow.idempotencyKey (row : EvidenceRow) : Option String :=
  match row.receiptJson with
  | .dict items =>
    match items.lookup "idempotency_key" with
    | some (.str key) => some key
    | _ => none
  | _ => none

/-- The table, in the order of `sequence`. -/
structure SQLiteReceiptLedger where
  rows : List EvidenceRow := []

namespace SQLiteReceiptLedger

variable (C : Canon)

/-- A document of the table that is no receipt. -/
def invalidReceipt : LedgerError := .other ⟨"ValidationError", "receipt_json"⟩

/-- The constraint `record_digest TEXT NOT NULL UNIQUE`. -/
def integrityError : LedgerError :=
  .other ⟨"IntegrityError", "UNIQUE constraint failed: receipt_evidence.record_digest"⟩

/-- `ValueError("EVIDENCE_CHAIN_INVALID")`. -/
def chainInvalid : LedgerError := .other ⟨"ValueError", "EVIDENCE_CHAIN_INVALID"⟩

/-- What canonicalization raises, as an append raises it. -/
def canonicalize {α : Type} : Except PyError α → Except LedgerError α
  | .ok x => .ok x
  | .error e => .error (.canonicalization e)

/-- `_record` inside an append. -/
def readRow (row : EvidenceRow) : Except LedgerError EvidenceRecord :=
  match row.record with
  | some record => .ok record
  | none => .error invalidReceipt

/-- The first row of the key of a receipt must be of its episode and capability. -/
def checkKey (db : SQLiteReceiptLedger) (receipt : Receipt) : Except LedgerError Unit :=
  match receipt.idempotencyKey with
  | none => .ok ()
  | some key =>
    match db.rows.find? fun row => row.idempotencyKey == some key with
    | none => .ok ()
    | some keyRow => do
      let keyPrior ← readRow keyRow
      if sameIntent keyPrior.receipt receipt then .ok () else .error .idempotencyKeyReuse

/-- `INSERT INTO receipt_evidence`. -/
def insert (db : SQLiteReceiptLedger) (row : EvidenceRow) : Except LedgerError SQLiteReceiptLedger :=
  if db.rows.any fun r => r.recordDigest == row.recordDigest then .error integrityError
  else .ok { rows := db.rows ++ [row] }

/-- `append`; a transaction that raises is rolled back. -/
def append (db : SQLiteReceiptLedger) (receipt : Receipt) :
    Except LedgerError (SQLiteReceiptLedger × EvidenceRecord) := do
  let payload := receipt.modelDump
  let _ ← canonicalize (C.canonicalBytes payload)
  let receiptDigest ← canonicalize (C.digest payload)
  match db.rows.find? fun row => row.receiptId == receipt.receiptId with
  | some existing =>
    let prior ← readRow existing
    if prior.receipt.pyEq receipt then .ok (db, prior) else .error .receiptIdConflict
  | none =>
    db.checkKey receipt
    let last := db.rows.getLast?
    let sequence := match last with
      | none => 0
      | some last => last.sequence + 1
    let previous := last.map EvidenceRow.recordDigest
    let recordDigest ←
      canonicalize (MemoryReceiptLedger.recordDigest C sequence previous receiptDigest)
    let db' ← db.insert
      ⟨sequence, receipt.receiptId, previous, receiptDigest, recordDigest, payload.reparse⟩
    .ok (db', ⟨sequence, previous, receiptDigest, recordDigest, receipt⟩)

/-- `records`. -/
def records (db : SQLiteReceiptLedger) : Except LedgerError (List EvidenceRecord) :=
  db.rows.mapM readRow

/-- The body of the loop of `verify`, from position `sequence` after `previous`. -/
def verifyFrom : ℕ → Option String → List EvidenceRecord → Except LedgerError Bool
  | _, _, [] => .ok true
  | sequence, previous, record :: rest =>
    if record.sequence ≠ sequence ∨ record.previousDigest ≠ previous then .ok false
    else do
      let expectedReceipt ← canonicalize (C.digest record.receipt.modelDump)
      if record.receiptDigest ≠ expectedReceipt then .ok false
      else
        let expectedRecord ← canonicalize
          (MemoryReceiptLedger.recordDigest C sequence previous expectedReceipt)
        if record.recordDigest ≠ expectedRecord then .ok false
        else verifyFrom (sequence + 1) (some record.recordDigest) rest

/-- `verify`. -/
def verify (db : SQLiteReceiptLedger) : Except LedgerError Bool := do
  let records ← db.records
  verifyFrom C 0 none records

/-- `__init__` on the file of a ledger. -/
def reopen (db : SQLiteReceiptLedger) : Except LedgerError SQLiteReceiptLedger := do
  if ← db.verify C then .ok db else .error chainInvalid

end SQLiteReceiptLedger

/-! ## Runs of the two ledgers -/

/-- A receipt whose dicts list no key twice, as Python's do. -/
abbrev PyReceipt := { receipt : Receipt // receipt.modelDump.keysUnique = true }

/-- An append, or the closing and reopening of the file. -/
inductive LedgerCall
  | append (receipt : PyReceipt)
  | reopen

/-- What a call returns or raises; a reopening returns no record. -/
abbrev LedgerOutcome := Except LedgerError (Option EvidenceRecord)

/-- The memory ledger stays open. -/
def MemoryReceiptLedger.call (C : Canon) (L : MemoryReceiptLedger) :
    LedgerCall → LedgerOutcome × MemoryReceiptLedger
  | .append receipt =>
    let (outcome, L') := L.appendRun C receipt.1
    (outcome.map some, L')
  | .reopen => (.ok none, L)

/-- A call that raises leaves the table as it is. -/
def SQLiteReceiptLedger.call (C : Canon) (db : SQLiteReceiptLedger) :
    LedgerCall → LedgerOutcome × SQLiteReceiptLedger
  | .append receipt =>
    match db.append C receipt.1 with
    | .ok (db', record) => (.ok (some record), db')
    | .error e => (.error e, db)
  | .reopen =>
    match db.reopen C with
    | .ok db' => (.ok none, db')
    | .error e => (.error e, db)

/-- The outcomes of the calls, and the ledger after them. -/
def ledgerRun {Λ : Type} (call : Λ → LedgerCall → LedgerOutcome × Λ) :
    List LedgerCall → Λ → List LedgerOutcome × Λ
  | [], L => ([], L)
  | c :: calls, L =>
    let (outcome, L') := call L c
    let (outcomes, L'') := ledgerRun call calls L'
    (outcome :: outcomes, L'')

/-- Equal records. -/
def SameRecord (a b : EvidenceRecord) : Prop :=
  a.sequence = b.sequence ∧ a.previousDigest = b.previousDigest ∧
    a.receiptDigest = b.receiptDigest ∧ a.recordDigest = b.recordDigest ∧
    b.receipt.pyEq a.receipt = true

/-- Equal records, or the same error. -/
def SameOutcome : LedgerOutcome → LedgerOutcome → Prop
  | .ok (some a), .ok (some b) => SameRecord a b
  | .ok none, .ok none => True
  | .error e, .error e' => e = e'
  | _, _ => False

/-- The digests of two links with different sequence numbers differ. -/
def Canon.SeparatesLinks (C : Canon) : Prop :=
  ∀ n m p q d e x, MemoryReceiptLedger.recordDigest C n p d = .ok x →
    MemoryReceiptLedger.recordDigest C m q e = .ok x → n = m

/-- A receipt outside RFC 8785 comes under a new id and a free key, and a receipt that is
to be added has no wide float in its effects. -/
def Storable (L : MemoryReceiptLedger) : LedgerCall → Prop
  | .append ⟨receipt, _⟩ =>
    (receipt.modelDump.isCanonical = false →
      L.byReceipt receipt.receiptId = none ∧ L.keyAdmits receipt = true) ∧
    (receipt.modelDump.isCanonical = true → L.byReceipt receipt.receiptId = none →
      L.keyAdmits receipt = true → L.records.length < 2 ^ 53 → receipt.hasWideEffect = false)
  | .reopen => True

/-- Every call is storable when it is made. -/
def Faithful (C : Canon) : MemoryReceiptLedger → List LedgerCall → Prop
  | _, [] => True
  | L, c :: calls => Storable L c ∧ Faithful C (L.call C c).2 calls

instance {L : MemoryReceiptLedger} : (c : LedgerCall) → Decidable (Storable L c)
  | .append ⟨receipt, _⟩ => inferInstanceAs (Decidable
      ((receipt.modelDump.isCanonical = false →
        L.byReceipt receipt.receiptId = none ∧ L.keyAdmits receipt = true) ∧
      (receipt.modelDump.isCanonical = true → L.byReceipt receipt.receiptId = none →
        L.keyAdmits receipt = true → L.records.length < 2 ^ 53 → receipt.hasWideEffect = false)))
  | .reopen => inferInstanceAs (Decidable True)

instance decidableFaithful (C : Canon) :
    (L : MemoryReceiptLedger) → (calls : List LedgerCall) → Decidable (Faithful C L calls)
  | _, [] => inferInstanceAs (Decidable True)
  | L, c :: calls =>
    have := decidableFaithful C (L.call C c).2 calls
    inferInstanceAs (Decidable (Storable L c ∧ Faithful C (L.call C c).2 calls))

/-! ## One table for one list -/

/-- The row of a record. -/
def EvidenceRow.ofRecord (record : EvidenceRecord) : EvidenceRow :=
  ⟨record.sequence, record.receipt.receiptId, record.previousDigest, record.receiptDigest,
    record.recordDigest, record.receipt.modelDump.reparse⟩

/-- A record as its row is read. -/
def EvidenceRecord.reparsed (record : EvidenceRecord) : EvidenceRecord :=
  { record with receipt := record.receipt.reparsed }

open MemoryReceiptLedger SQLiteReceiptLedger HashChain

variable {C : Canon} {L : MemoryReceiptLedger} {db : SQLiteReceiptLedger}

theorem readRow_ofRecord (record : EvidenceRecord) :
    readRow (.ofRecord record) = .ok record.reparsed := by
  simp [readRow, EvidenceRow.record, EvidenceRow.ofRecord, Receipt.modelValidate_reparse,
    EvidenceRecord.reparsed]

theorem idempotencyKey_ofRecord (record : EvidenceRecord) :
    (EvidenceRow.ofRecord record).idempotencyKey = record.receipt.idempotencyKey := by
  cases hk : record.receipt.idempotencyKey with
  | none => simp [EvidenceRow.idempotencyKey, EvidenceRow.ofRecord, Receipt.modelDump, List.lookup_cons, List.lookup_nil, hk,
      Value.ofOption]
  | some key => simp [EvidenceRow.idempotencyKey, EvidenceRow.ofRecord, Receipt.modelDump, List.lookup_cons, List.lookup_nil,
      hk, Value.ofOption]

/-- A recorded receipt can be read back and digested again. -/
structure Readable (receipt : Receipt) : Prop where
  canonical : receipt.modelDump.isCanonical = true
  narrow : receipt.hasWideEffect = false
  keysUnique : receipt.modelDump.keysUnique = true

theorem Readable.sameRecord {record : EvidenceRecord} (h : Readable record.receipt) :
    SameRecord record record.reparsed :=
  ⟨rfl, rfl, rfl, rfl, by
    rw [EvidenceRecord.reparsed, Receipt.pyEq_reparsed]
    exact Value.pyEq_self h.canonical h.keysUnique⟩

/-- The table has the rows of the records, which can be read back, and the key index has the
first record of a key. -/
structure Mirrors (C : Canon) (L : MemoryReceiptLedger) (db : SQLiteReceiptLedger) : Prop where
  wellFormed : WellFormed C L
  rows : db.rows = L.records.map .ofRecord
  first : ∀ key, L.byIdempotencyKey key =
    L.records.find? fun record => record.receipt.idempotencyKey == some key
  readable : ∀ record ∈ L.records, Readable record.receipt

theorem Mirrors.empty : Mirrors C {} {} where
  wellFormed := .empty
  rows := rfl
  first _ := rfl
  readable _ h := by cases h

/-- The row of a receipt id is the row of its record. -/
theorem Mirrors.find_receipt (h : Mirrors C L db) (id : String) :
    db.rows.find? (fun row => row.receiptId == id) = (L.byReceipt id).map .ofRecord := by
  have hfind : L.records.find? (fun record => record.receipt.receiptId == id) = L.byReceipt id := by
    cases hid : L.byReceipt id with
    | none =>
      refine List.find?_eq_none.mpr fun record hr he => ?_
      have := (h.wellFormed.byReceipt id record).mpr ⟨hr, by simpa using he⟩
      rw [hid] at this
      cases this
    | some record =>
      cases hf : L.records.find? fun record => record.receipt.receiptId == id with
      | none =>
        obtain ⟨hr, he⟩ := (h.wellFormed.byReceipt id record).mp hid
        exact absurd (by simpa using he) (List.find?_eq_none.mp hf record hr)
      | some other =>
        have hother := (h.wellFormed.byReceipt id other).mpr
          ⟨List.mem_of_find?_eq_some hf, by simpa using List.find?_some hf⟩
        rw [← hother, hid]
  rw [h.rows, List.find?_map, ← hfind]
  rfl

theorem Mirrors.checkKey (h : Mirrors C L db) (receipt : Receipt) :
    db.checkKey receipt =
      if L.keyAdmits receipt then .ok () else .error .idempotencyKeyReuse := by
  unfold SQLiteReceiptLedger.checkKey keyAdmits
  cases receipt.idempotencyKey with
  | none => rfl
  | some key =>
    have hfind : db.rows.find? (fun row => row.idempotencyKey == some key) =
        (L.byIdempotencyKey key).map .ofRecord := by
      rw [h.rows, List.find?_map, h.first]
      simp only [Function.comp_def, idempotencyKey_ofRecord]
    obtain hprior | ⟨prior, hprior⟩ := (L.byIdempotencyKey key).eq_none_or_eq_some
    · simp [hfind, hprior]
    · have hread : readRow (.ofRecord prior) = .ok prior.reparsed := readRow_ofRecord prior
      simp only [hfind, hprior, Option.map_some, hread, bind, Except.bind]
      rfl

/-- The next row comes after the last record. -/
theorem Mirrors.next (h : Mirrors C L db) :
    (match db.rows.getLast? with
      | none => 0
      | some last => last.sequence + 1) = L.records.length ∧
    db.rows.getLast?.map EvidenceRow.recordDigest =
      L.records.getLast?.map EvidenceRecord.recordDigest := by
  have hsequence := h.wellFormed.linked.map_eq fun n p e he => he.1
  rw [h.rows]
  rcases List.eq_nil_or_concat' L.records with hnil | ⟨init, last, hconcat⟩
  · simp [hnil]
  · rw [hconcat] at hsequence ⊢
    have hlast : last.sequence = init.length := by
      rw [List.length_append, List.length_singleton, List.range'_1_concat, List.map_append] at hsequence
      have := List.append_inj_right' hsequence rfl
      simpa using this
    simp [EvidenceRow.ofRecord, hlast]

/-- The digest of a new place is new. -/
theorem Mirrors.insert (h : Mirrors C L db) (hS : C.SeparatesLinks) {row : EvidenceRow}
    {previous : Option String} {receiptDigest : String}
    (hdigest : recordDigest C L.records.length previous receiptDigest = .ok row.recordDigest) :
    db.insert row = .ok { rows := db.rows ++ [row] } := by
  unfold SQLiteReceiptLedger.insert
  rw [if_neg]
  intro hany
  obtain ⟨r, hr, heq⟩ := List.any_eq_true.mp hany
  rw [h.rows] at hr
  obtain ⟨record, hrecord, rfl⟩ := List.mem_map.mp hr
  obtain ⟨n, p, hn, -, -, -, hchained⟩ := h.wellFormed.linked.of_mem hrecord
  have heq : record.recordDigest = row.recordDigest := eq_of_beq heq
  have := hS _ _ _ _ _ _ _ (heq ▸ hchained) hdigest
  omega

/-- An index of first records stays one. -/
theorem Mirrors.first_push (h : Mirrors C L db) (record : EvidenceRecord) (key : String) :
    (L.push record).byIdempotencyKey key =
      (L.push record).records.find? fun r => r.receipt.idempotencyKey == some key := by
  rw [push_records, List.find?_append, ← h.first]
  cases hprior : L.byIdempotencyKey key with
  | some prior => exact push_byIdempotencyKey_of_some hprior
  | none =>
    rw [Option.none_or]
    by_cases hk : record.receipt.idempotencyKey = some key
    · have hindex : (L.push record).byIdempotencyKey =
          Function.update L.byIdempotencyKey key (some record) := indexKey_of_free hk hprior
      simp [hindex, hk]
    · cases hpush : (L.push record).byIdempotencyKey key with
      | none => simp [hk]
      | some r =>
        rcases push_byIdempotencyKey_cases hpush with hold | ⟨hkey, -⟩
        · exact absurd (hold.symm.trans hprior) (by simp)
        · exact absurd hkey hk

/-! ## One append -/

/-- A receipt outside RFC 8785 is refused at once. -/
theorem append_uncanonical {receipt : Receipt} {e : PyError}
    (he : C.canonicalBytes receipt.modelDump = .error e) :
    db.append C receipt = .error (.canonicalization e) := by
  simp [SQLiteReceiptLedger.append, canonicalize, he, bind, Except.bind]

/-- A recorded id is answered with its record, read back. -/
theorem Mirrors.append_known (h : Mirrors C L db) {receipt : Receipt} {prior : EvidenceRecord}
    (hC : CanonicalIn C receipt.modelDump) (hknown : L.byReceipt receipt.receiptId = some prior) :
    db.append C receipt =
      if prior.receipt.pyEq receipt then .ok (db, prior.reparsed) else .error .receiptIdConflict := by
  obtain ⟨bytes, hbytes⟩ := hC
  obtain ⟨digest, hdigest⟩ := CanonicalIn.digest ⟨bytes, hbytes⟩
  have hpyEq : prior.reparsed.receipt.pyEq receipt = prior.receipt.pyEq receipt :=
    prior.receipt.pyEq_reparsed receipt
  simp [SQLiteReceiptLedger.append, canonicalize, hbytes, hdigest, h.find_receipt, hknown,
    readRow_ofRecord, bind, Except.bind, hpyEq]

/-- A new id is answered as the memory ledger answers it, and its row is added. -/
theorem Mirrors.append_new (h : Mirrors C L db) (hS : C.SeparatesLinks) {receipt : Receipt}
    (hC : CanonicalIn C receipt.modelDump) (hnew : L.byReceipt receipt.receiptId = none) :
    db.append C receipt =
      if L.keyAdmits receipt then
        match L.nextRecord C receipt with
        | .error e => .error (.canonicalization e)
        | .ok record => .ok ({ rows := db.rows ++ [.ofRecord record] }, record)
      else .error .idempotencyKeyReuse := by
  obtain ⟨bytes, hbytes⟩ := hC
  obtain ⟨digest, hdigest⟩ := CanonicalIn.digest ⟨bytes, hbytes⟩
  obtain ⟨hsequence, hprevious⟩ := h.next
  simp only [SQLiteReceiptLedger.append, canonicalize, hbytes, hdigest, h.find_receipt, hnew,
    h.checkKey, hsequence, hprevious, bind, Except.bind, Option.map_none]
  cases L.keyAdmits receipt with
  | false => rfl
  | true =>
    simp only [if_true, nextRecord, hdigest, bind, Except.bind]
    cases hrecord : recordDigest C L.records.length
        (L.records.getLast?.map EvidenceRecord.recordDigest) digest with
    | error e => rfl
    | ok d =>
      have hinsert : db.insert ⟨L.records.length, receipt.receiptId,
          L.records.getLast?.map EvidenceRecord.recordDigest, digest, d,
          receipt.modelDump.reparse⟩ = .ok { rows := db.rows ++ [_] } := h.insert hS hrecord
      simp only [hinsert]
      rfl

/-- A new receipt leaves the same in the table and in the list. -/
theorem Mirrors.rows_append (h : Mirrors C L db) (hS : C.SeparatesLinks) {receipt : PyReceipt}
    (hC : CanonicalIn C receipt.1.modelDump) (hnew : L.byReceipt receipt.1.receiptId = none) :
    (db.call C (.append receipt)).2.rows =
      (L.call C (.append receipt)).2.records.map .ofRecord := by
  simp only [MemoryReceiptLedger.call, SQLiteReceiptLedger.call, appendRun_eq, h.append_new hS hC hnew,
    MemoryReceiptLedger.append, hnew]
  cases L.keyAdmits receipt.1 with
  | false => exact h.rows
  | true =>
    cases L.nextRecord C receipt.1 with
    | error e => exact h.rows
    | ok record => simp [h.rows]

/-- The table with the row of a new record mirrors the list with the record. -/
theorem Mirrors.push (h : Mirrors C L db) {record : EvidenceRecord}
    (hwf : WellFormed C (L.push record)) (hreadable : Readable record.receipt) :
    Mirrors C (L.push record) { rows := db.rows ++ [.ofRecord record] } where
  wellFormed := hwf
  rows := by simp [h.rows]
  first := h.first_push record
  readable r hr := by
    rcases List.mem_append.mp hr with hr | hr
    · exact h.readable r hr
    · exact List.mem_singleton.mp hr ▸ hreadable

/-- The sequence number of a new record fits a double. -/
theorem length_of_nextRecord (hC : C.Exact) {receipt : Receipt} {record : EvidenceRecord}
    (h : L.nextRecord C receipt = .ok record) : L.records.length < 2 ^ 53 := by
  obtain ⟨-, -, -, hdigest⟩ := nextRecord_chained h
  rw [recordDigest, Canon.digest] at hdigest
  cases hbytes : C.canonicalBytes (.dict [("sequence", .int L.records.length),
      ("previous_digest", .ofOption (head EvidenceRecord.recordDigest none L.records)),
      ("receipt_digest", .str record.receiptDigest)]) with
  | error e => simp [hbytes, Except.map] at hdigest
  | ok bytes =>
    have hcanonical := (hC _).mp ⟨bytes, hbytes⟩
    simp only [Value.isCanonicalItems_cons, Value.isCanonical, Bool.and_eq_true,
      decide_eq_true_eq] at hcanonical
    omega

/-- A storable receipt is answered alike, and the table goes on mirroring the list. -/
theorem Mirrors.append (h : Mirrors C L db) (hC : C.Exact) (hS : C.SeparatesLinks)
    {receipt : PyReceipt} (hs : Storable L (.append receipt)) :
    SameOutcome (L.call C (.append receipt)).1 (db.call C (.append receipt)).1 ∧
      Mirrors C (L.call C (.append receipt)).2 (db.call C (.append receipt)).2 := by
  obtain ⟨receipt, hkeys⟩ := receipt
  obtain ⟨hrefused, hnarrow⟩ := hs
  simp only [MemoryReceiptLedger.call, SQLiteReceiptLedger.call, appendRun_eq]
  by_cases hcanonical : receipt.modelDump.isCanonical = true
  · have hin : CanonicalIn C receipt.modelDump := (hC _).mpr hcanonical
    cases hid : L.byReceipt receipt.receiptId with
    | some prior =>
      have hprior : prior ∈ L.records := ((h.wellFormed.byReceipt _ _).mp hid).1
      rw [h.append_known hin hid]
      by_cases heq : prior.receipt.pyEq receipt = true
      · simp only [MemoryReceiptLedger.append, hid, heq, if_true]
        exact ⟨(h.readable prior hprior).sameRecord, h⟩
      · simp only [MemoryReceiptLedger.append, hid, heq]
        exact ⟨rfl, h⟩
    | none =>
      rw [h.append_new hS hin hid]
      by_cases hkey : L.keyAdmits receipt = true
      · cases hnext : L.nextRecord C receipt with
        | error e =>
          simp only [MemoryReceiptLedger.append, hid, hkey, hnext, if_true]
          exact ⟨rfl, h⟩
        | ok record =>
          simp only [MemoryReceiptLedger.append, hid, hkey, hnext, if_true]
          have hlength := length_of_nextRecord hC hnext
          have hchained := nextRecord_chained hnext
          obtain rfl := nextRecord_receipt hnext
          have hreadable : Readable record.receipt :=
            ⟨hcanonical, hnarrow hcanonical hid hkey hlength, hkeys⟩
          have hself := Value.pyEq_self hcanonical hkeys
          exact ⟨⟨rfl, rfl, rfl, rfl, hself⟩,
            h.push (h.wellFormed.push hid hkey hchained) hreadable⟩
      · simp only [MemoryReceiptLedger.append, hid, hkey]
        exact ⟨rfl, h⟩
  · -- both refuse it with what canonicalization raises
    obtain ⟨hid, hkey⟩ := hrefused (by simpa using hcanonical)
    cases hbytes : C.canonicalBytes receipt.modelDump with
    | ok bytes => exact absurd ((hC _).mp ⟨bytes, hbytes⟩) hcanonical
    | error e =>
      have hdigest : C.digest receipt.modelDump = .error e := by
        rw [Canon.digest, hbytes, Except.map]
      have hnext : L.nextRecord C receipt = .error e := by
        simp [nextRecord, hdigest, bind, Except.bind]
      rw [append_uncanonical hbytes]
      simp only [MemoryReceiptLedger.append, hid, hkey, hnext, if_true]
      exact ⟨rfl, h⟩

/-! ## Reading the table -/

theorem verify_of_rows {found : List EvidenceRecord} (h : db.rows = found.map .ofRecord) :
    db.records = .ok (found.map EvidenceRecord.reparsed) ∧
      db.verify C = SQLiteReceiptLedger.verifyFrom C 0 none (found.map EvidenceRecord.reparsed) := by
  have hmap : ∀ found : List EvidenceRecord,
      (found.map EvidenceRow.ofRecord).mapM readRow = .ok (found.map EvidenceRecord.reparsed) := by
    intro found
    induction found with
    | nil => rfl
    | cons record rest ih =>
      rw [List.map_cons, List.mapM_cons, readRow_ofRecord, ih]
      rfl
  have hrecords : db.records = .ok (found.map EvidenceRecord.reparsed) := by
    rw [SQLiteReceiptLedger.records, h, hmap]
  exact ⟨hrecords, by rw [SQLiteReceiptLedger.verify, hrecords]; rfl⟩

/-- What verifies has been digested. -/
theorem digested_of_verifyFrom : ∀ {n : ℕ} {previous : Option String} {found : List EvidenceRecord},
    SQLiteReceiptLedger.verifyFrom C n previous found = .ok true →
      ∀ record ∈ found, CanonicalIn C record.receipt.modelDump
  | _, _, [], _ => fun r hr => by cases hr
  | n, previous, record :: rest, h => by
    rw [SQLiteReceiptLedger.verifyFrom] at h
    split at h
    · cases h
    · cases hbytes : C.canonicalBytes record.receipt.modelDump with
      | error e => simp [Canon.digest, hbytes, canonicalize, Except.map, bind, Except.bind] at h
      | ok bytes =>
        have hrest : ∃ previous', SQLiteReceiptLedger.verifyFrom C (n + 1) previous' rest = .ok true := by
          simp only [Canon.digest, hbytes, canonicalize, Except.map, bind, Except.bind] at h
          split at h
          · cases h
          · split at h
            · cases h
            · split at h
              · cases h
              · exact ⟨_, h⟩
        obtain ⟨previous', hrest⟩ := hrest
        intro r hr
        rcases List.mem_cons.mp hr with rfl | hr
        · exact ⟨bytes, hbytes⟩
        · exact digested_of_verifyFrom hrest r hr

/-- Records that can be read back verify as they did. -/
theorem verifyFrom_reparsed (hD : C.OfDocument) :
    ∀ {n : ℕ} {previous : Option String} {records : List EvidenceRecord},
      Linked EvidenceRecord.recordDigest (Chained C) n previous records →
      (∀ record ∈ records, Readable record.receipt) →
        SQLiteReceiptLedger.verifyFrom C n previous (records.map EvidenceRecord.reparsed) = .ok true
  | _, _, [], _, _ => rfl
  | n, previous, record :: rest, h, hread => by
    obtain ⟨⟨hsequence, hprevious, hreceipt, hlink⟩, hrest⟩ := h
    have hhead := hread record (by simp)
    have hdigest : C.digest record.reparsed.receipt.modelDump = .ok record.receiptDigest :=
      (Receipt.digest_reparsed hD hhead.canonical hhead.narrow).trans hreceipt
    have ih := verifyFrom_reparsed hD hrest fun r hr => hread r (List.mem_cons_of_mem _ hr)
    have hplace : ¬ (record.reparsed.sequence ≠ n ∨ record.reparsed.previousDigest ≠ previous) := by
      simp [EvidenceRecord.reparsed, hsequence, hprevious]
    rw [List.map_cons, SQLiteReceiptLedger.verifyFrom, if_neg hplace, hdigest]
    simp only [canonicalize, bind, Except.bind]
    rw [if_neg (by simp [EvidenceRecord.reparsed]), hlink]
    simp only
    rw [if_neg (by simp [EvidenceRecord.reparsed])]
    exact ih

theorem Mirrors.verify (h : Mirrors C L db) (hD : C.OfDocument) : db.verify C = .ok true := by
  rw [(verify_of_rows h.rows).2]
  exact verifyFrom_reparsed hD h.wellFormed.linked h.readable

/-- One call of each ledger. -/
theorem Mirrors.call (h : Mirrors C L db) (hC : C.Exact) (hD : C.OfDocument)
    (hS : C.SeparatesLinks) {c : LedgerCall} (hs : Storable L c) :
    SameOutcome (L.call C c).1 (db.call C c).1 ∧ Mirrors C (L.call C c).2 (db.call C c).2 := by
  cases c with
  | append receipt => exact h.append hC hS hs
  | reopen =>
    have hreopen : db.reopen C = .ok db := by
      rw [SQLiteReceiptLedger.reopen, h.verify hD]
      rfl
    simp only [MemoryReceiptLedger.call, SQLiteReceiptLedger.call, hreopen]
    exact ⟨trivial, h⟩

/-- A run of each ledger. -/
theorem Mirrors.run (hC : C.Exact) (hD : C.OfDocument) (hS : C.SeparatesLinks) :
    ∀ (calls : List LedgerCall) {L : MemoryReceiptLedger} {db : SQLiteReceiptLedger},
      Mirrors C L db → Faithful C L calls →
        List.Forall₂ SameOutcome (ledgerRun (MemoryReceiptLedger.call C) calls L).1
            (ledgerRun (SQLiteReceiptLedger.call C) calls db).1 ∧
          Mirrors C (ledgerRun (MemoryReceiptLedger.call C) calls L).2
            (ledgerRun (SQLiteReceiptLedger.call C) calls db).2
  | [], _, _, h, _ => ⟨.nil, h⟩
  | _ :: calls, _, _, h, hfaithful => by
    obtain ⟨houtcome, hnext⟩ := h.call hC hD hS hfaithful.1
    obtain ⟨houtcomes, hend⟩ := Mirrors.run hC hD hS calls hnext hfaithful.2
    exact ⟨.cons houtcome houtcomes, hend⟩

/-- A receipt outside RFC 8785 that both ledgers refuse alike is new, and a receipt that is
added has no wide float if the table still verifies. -/
theorem Mirrors.storable (h : Mirrors C L db) (hC : C.Exact) (hS : C.SeparatesLinks) {c : LedgerCall}
    (houtcome : SameOutcome (L.call C c).1 (db.call C c).1)
    (hverify : (db.call C c).2.verify C = .ok true) : Storable L c := by
  match c with
  | .reopen => trivial
  | .append ⟨receipt, hkeys⟩ =>
    simp only [MemoryReceiptLedger.call, SQLiteReceiptLedger.call, appendRun_eq] at houtcome hverify
    refine ⟨fun hcanonical => ?_, fun hcanonical hnew hkey hlength => ?_⟩
    · cases hbytes : C.canonicalBytes receipt.modelDump with
      | ok bytes => simp [(hC _).mp ⟨bytes, hbytes⟩] at hcanonical
      | error e =>
        rw [append_uncanonical hbytes] at houtcome
        rcases hid : L.byReceipt receipt.receiptId with _ | prior
        · refine ⟨rfl, ?_⟩
          by_contra hkey
          simp [MemoryReceiptLedger.append, hid, hkey, SameOutcome, Except.map] at houtcome
        · by_cases heq : prior.receipt.pyEq receipt = true
          · simp [MemoryReceiptLedger.append, hid, heq, SameOutcome, Except.map] at houtcome
          · simp [MemoryReceiptLedger.append, hid, heq, SameOutcome, Except.map] at houtcome
    · obtain ⟨record, hnext⟩ := nextRecord_ok (L := L) hC.total (by omega) hcanonical
      have happend := h.append_new hS ((hC _).mpr hcanonical) hnew
      simp only [hkey, hnext, if_true] at happend
      have hrows : ({ rows := db.rows ++ [.ofRecord record] } : SQLiteReceiptLedger).rows =
          (L.records ++ [record]).map .ofRecord := by simp [h.rows]
      rw [happend, (verify_of_rows hrows).2] at hverify
      have hdigested := digested_of_verifyFrom hverify record.reparsed (by simp)
      obtain rfl := nextRecord_receipt hnext
      exact Receipt.narrow_of_reparsed ((hC _).mp hdigested)

theorem Mirrors.faithful (hC : C.Exact) (hD : C.OfDocument) (hS : C.SeparatesLinks) :
    ∀ (calls : List LedgerCall) {L : MemoryReceiptLedger} {db : SQLiteReceiptLedger},
      Mirrors C L db → (∀ pre, pre <+: calls →
        List.Forall₂ SameOutcome (ledgerRun (MemoryReceiptLedger.call C) pre L).1
            (ledgerRun (SQLiteReceiptLedger.call C) pre db).1 ∧
          (ledgerRun (SQLiteReceiptLedger.call C) pre db).2.verify C = .ok true) →
        Faithful C L calls
  | [], _, _, _, _ => trivial
  | c :: calls, L, db, h, hagree => by
    obtain ⟨houtcome, hverify⟩ := hagree [c] (by simp)
    obtain ⟨houtcome, -⟩ := List.forall₂_cons.mp houtcome
    have hstorable := h.storable hC hS houtcome hverify
    refine ⟨hstorable, Mirrors.faithful hC hD hS calls (h.call hC hD hS hstorable).2 fun pre hpre => ?_⟩
    obtain ⟨houtcomes, hend⟩ := hagree (c :: pre) (List.cons_prefix_cons.mpr ⟨rfl, hpre⟩)
    exact ⟨(List.forall₂_cons.mp houtcomes).2, hend⟩

theorem Faithful.before : ∀ {calls pre : List LedgerCall} {L : MemoryReceiptLedger},
    Faithful C L calls → pre <+: calls → Faithful C L pre
  | _, [], _, _, _ => trivial
  | [], _ :: _, _, _, hpre => by simp at hpre
  | c :: calls, d :: pre, L, h, hpre => by
    obtain ⟨rfl, hrest⟩ := List.cons_prefix_cons.mp hpre
    exact ⟨h.1, h.2.before hrest⟩

/-- The outcomes of the calls are the same, and after them both ledgers verify and list equal
records. -/
def LedgersAgree (C : Canon) (calls : List LedgerCall) : Prop :=
  let memory := ledgerRun (MemoryReceiptLedger.call C) calls {}
  let durable := ledgerRun (SQLiteReceiptLedger.call C) calls {}
  List.Forall₂ SameOutcome memory.1 durable.1 ∧
    (∃ found, durable.2.records = .ok found ∧ List.Forall₂ SameRecord memory.2.records found) ∧
    memory.2.verify C = .ok true ∧ durable.2.verify C = .ok true

/-- The text of a link ends in its sequence number. -/
theorem text_link (n : ℕ) (p : Option String) (d : String) :
    ∃ before, (Value.dict [("sequence", .int n), ("previous_digest", .ofOption p),
      ("receipt_digest", .str d)]).text.toList = before ++ ':' :: (Nat.toDigits 10 n ++ ['\x7d']) := by
  have hsort : ([("sequence", toString (n : ℤ)), ("previous_digest", (Value.ofOption p).text),
      ("receipt_digest", jsonString d)].insertionSort fun a b => a.1 ≤ b.1) =
      [("previous_digest", (Value.ofOption p).text), ("receipt_digest", jsonString d),
        ("sequence", toString (n : ℤ))] := by
    simp [List.insertionSort, List.orderedInsert]
  have hjoin : ∀ a b c : String, String.intercalate "," [a, b, c] = a ++ "," ++ b ++ "," ++ c :=
    fun _ _ _ => rfl
  have hdigits : (toString (n : ℤ)).toList = Nat.toDigits 10 n := Nat.toList_repr
  simp only [Value.text, Value.textItems, hsort, List.map_cons, List.map_nil, hjoin,
    String.toList_append, hdigits]
  exact ⟨"\x7b".toList ++ ((jsonString "previous_digest").toList ++ ":".toList ++
    (Value.ofOption p).text.toList ++ ",".toList ++ ((jsonString "receipt_digest").toList ++
    ":".toList ++ (jsonString d).toList) ++ ",".toList ++ (jsonString "sequence").toList), by simp⟩

/-- What comes after the last colon. -/
theorem eq_after_colon {x y s t : List Char} (h : x ++ ':' :: s = y ++ ':' :: t) (hs : ':' ∉ s)
    (ht : ':' ∉ t) : s = t := by
  have hr := congrArg List.reverse h
  simp only [List.reverse_append, List.reverse_cons, List.append_assoc,
    List.singleton_append] at hr
  have hend : ∀ {u v : List Char}, ':' ∉ u →
      (u.reverse ++ ':' :: v).takeWhile (· ≠ ':') = u.reverse := by
    intro u v hu
    have hall : ∀ c ∈ u.reverse, decide (c ≠ ':') = true := fun c hc => by
      have : c ≠ ':' := fun e => hu (by simpa [e] using hc)
      simpa using this
    rw [List.takeWhile_append_of_pos hall]
    simp
  exact List.reverse_injective ((hend hs).symm.trans ((congrArg _ hr).trans (hend ht)))

theorem Canon.reference_separatesLinks : reference.SeparatesLinks := by
  intro n m p q d e x hx hy
  have htext : ∀ {n : ℕ} {p : Option String} {d : String},
      recordDigest reference n p d = .ok x → ∃ t : String, x = reference.blake3 t.toUTF8.data.toList ∧
        ∃ before, t.toList = before ++ ':' :: (Nat.toDigits 10 n ++ ['\x7d']) := by
    intro n p d h
    rw [recordDigest, Canon.digest, Canon.canonicalBytes] at h
    cases hbytes : reference.dumps (.dict [("sequence", .int n), ("previous_digest", .ofOption p),
        ("receipt_digest", .str d)]) with
    | error e => simp [hbytes, Except.map] at h
    | ok bytes =>
      have hcanonical := (reference_exact _).mp ⟨bytes, hbytes⟩
      have htext : reference.dumps (.dict [("sequence", .int n), ("previous_digest", .ofOption p),
          ("receipt_digest", .str d)]) = .ok (Value.text (.dict [("sequence", .int n),
            ("previous_digest", .ofOption p), ("receipt_digest", .str d)])).toUTF8.data.toList := by
        simp only [reference, Value.render_eq_text hcanonical, Except.map]
      rw [htext] at h
      exact ⟨_, (Except.ok.inj h).symm, text_link n p d⟩
  obtain ⟨t, ht, before, hbefore⟩ := htext hx
  obtain ⟨u, hu, before', hbefore'⟩ := htext hy
  have hbytes := reference_collisionFree (ht.symm.trans hu)
  have htu : t = u := String.toByteArray_inj.mp
    (ByteArray.ext (Array.toList_inj.mp (by simpa using hbytes)))
  have hnot : ∀ k : ℕ, ':' ∉ Nat.toDigits 10 k ++ ['\x7d'] := by
    intro k hk
    rcases List.mem_append.mp hk with hk | hk
    · exact absurd (Nat.isDigit_of_mem_toDigits (by decide) (by decide) hk) (by decide)
    · simp at hk
  have hdigits := eq_after_colon (hbefore.symm.trans (htu ▸ hbefore')) (hnot n) (hnot m)
  have hdigits := List.append_cancel_right hdigits
  rw [← Nat.ofDigitChars_ten_toDigits (n := n), hdigits, Nat.ofDigitChars_ten_toDigits]

/-- A receipt with one number among its intended effects. -/
def effectReceipt (receiptId : String) (x : PyFloat) : PyReceipt :=
  ⟨{ sampleReceipt receiptId .act with intendedEffects := [[("mass", .float x)]] }, by
    simp [sampleReceipt, Receipt.modelDump, Value.keysUnique, Value.keysUniqueItems,
      Value.keysUniqueList, Value.ofStrings, Value.ofOption, Value.ofOptionBool]⟩

/-- Appends, a refusal, an append again and the file opened anew. -/
def sampleCalls : List LedgerCall :=
  [.append (effectReceipt "r" (.finite 2)), .append (effectReceipt "r" (.finite 3)),
    .append (effectReceipt "s" .nan), .reopen, .append (effectReceipt "r" (.finite 2))]

/-- A receipt with a wide float. -/
def wideReceipt : PyReceipt := effectReceipt "r" (.finite (10 ^ 16))

end GymAct
