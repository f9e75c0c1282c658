import GymAct.LoopHistory

/-!
# Admission in the execution loop

An effect that was witnessed gets its entry, is verified, and is admitted with a receipt that
lists the whole ledger. The receipt attests the subject and the effect that were verified exactly
when the last two reads of the subject agree and the digest of the effect is a text
(`attests_iff`). Nothing else changes what the loop remembers of earlier runs (`Concludes`).
-/

namespace GymAct.ExecutionLoop

open Fallible

section Parts

variable {W α β : Type} {C : Canon} {T : PyText} {L : AutonomousLoop W} {request : ExecutionRequest}
  {i : L.Index} {pin : ClaimPin} {effect : Payload} {s₀ s s' : LoopState W} {h h' : History}

/-! ## Witnessed effects -/

/-- An effect was witnessed under a claim, and has no entry yet. -/
structure Witnessed (s₀ : LoopState W) (pin : ClaimPin) (effect : Payload) (h : History)
    (s : LoopState W) : Prop where
  heard : Heard s₀.calls s h
  kept : Kept s₀ s
  claimed : h.pin = some pin
  crashed : h.crashed = false
  effects : ∃ effects, h.effects = effects ++ [effect] ∧ Ledger s effects.length

/-- The last effect was witnessed under a claim, and the last entry is of that claim. -/
structure Underway (s₀ : LoopState W) (pin : ClaimPin) (effect : Payload) (h : History)
    (s : LoopState W) : Prop where
  stage : Stage s₀ h s
  claimed : h.pin = some pin
  crashed : h.crashed = false
  witnessed : h.effects.getLast? = some effect
  entered : ∃ entries last, s.actuations = entries ++ [last] ∧
    last.providerExecutionId = pin.providerExecutionId

theorem Underway.calm (hs : Underway s₀ pin effect h s) (hcalm : Calm s s') :
    Underway s₀ pin effect h s' := by
  refine ⟨hs.stage.calm hcalm, hs.claimed, hs.crashed, hs.witnessed, ?_⟩
  rw [hcalm.actuations]
  exact hs.entered

/-- Calls that tell nothing new about the claim and its effect. -/
theorem Underway.asks {calls : List Call} (hs : Underway s₀ pin effect h s) (hasks : Asks calls s s')
    (hsame : ∃ reads standing, calls.foldl History.hear h =
      { h with
        reads := reads
        standing := standing }) :
    Underway s₀ pin effect (calls.foldl History.hear h) s' := by
  obtain ⟨reads, standing, hsame⟩ := hsame
  have hheard := hs.stage.heard.asks hasks
  rw [hsame] at hheard ⊢
  refine ⟨⟨hheard, hs.stage.ledger.asks hasks, hs.stage.kept.trans hasks.kept⟩, hs.claimed,
    hs.crashed, hs.witnessed, ?_⟩
  rw [hasks.actuations]
  exact hs.entered

theorem comes_recordActuation {witness : String} (hs : Witnessed s₀ pin effect h s) :
    Comes (L.recordActuation T request i pin effect witness)
      (fun _ => Underway s₀ pin effect h) s := by
  obtain ⟨hheard, hkept, hpin, hcrashed, effects, heffects, hledger⟩ := hs
  refine calm_transport.comes_bind fun provider s₁ h₁ => ?_
  refine calm_raising.comes_bind fun consequence s₂ h₂ => ?_
  have h₂ := h₁.trans h₂
  have hledger₂ := hledger.grows h₂
  refine wp_bind.mpr (wp_get.mpr (wp_bind.mpr (wp_modify.mpr (Comes.of_kept ?_ ⟨rfl, rfl⟩))))
  refine calm_transport.comes_bind fun transport s₃ h₃ => ?_
  refine calm_readNow.comes_bind fun tick s₄ h₄ => ?_
  refine calm_eventProvider.comes_bind fun name s₅ h₅ => ?_
  have h₅ := (h₃.trans h₄).trans h₅
  obtain ⟨events, hevents, hquiet⟩ := h₅.events
  have hnone : events.countP (fun e => e.eventType = "actuation") = 0 :=
    List.countP_eq_zero.mpr fun e he => by simp [(hquiet e he).2]
  have hlength : h.effects.length = effects.length + 1 := by
    rw [heffects, List.length_append, List.length_singleton]
  refine wp_modify.mpr ⟨⟨?_, ?_, ?_⟩, hpin, hcrashed, ?_, _, _,
    h₅.actuations.trans (congrArg (· ++ _) h₂.actuations), rfl⟩
  · obtain ⟨calls, hcalls, hhistory⟩ := hheard.calm h₂
    obtain ⟨more, hmore, hall⟩ := h₅.calls
    refine ⟨calls ++ more, by simp only [hmore, hcalls, List.append_assoc], ?_⟩
    rw [history, List.foldl_append, History.foldl_hear_of_isAmbient hall]
    exact hhistory
  · rw [hlength]
    refine ⟨?_, ?_, fun e he => ?_⟩
    · rw [h₅.actuations, List.map_append, hledger₂.sequence, List.range'_1_concat]
      simp [hledger₂.length, Nat.add_comm]
    · simp only [hevents, List.countP_append, hledger₂.events, hnone]
      simp
    · rcases List.mem_append.mp he with he | he
      · rw [hevents] at he
        exact (List.mem_append.mp he).elim (hledger₂.emitted e) fun he => (hquiet e he).1
      · exact List.mem_singleton.mp he ▸ ⟨request, name, rfl⟩
  · exact ⟨h₅.completed.trans (h₂.completed.trans hkept.completed),
      h₅.unreconciled.trans (h₂.unreconciled.trans hkept.unreconciled)⟩
  · rw [heffects, List.getLast?_append]
    rfl

theorem comes_readSubject (hs : Underway s₀ pin effect h s) :
    Comes (L.currentSubjectSha request i)
      (fun sha => Underway s₀ pin effect (h.read sha)) s :=
  comes_currentSubjectSha fun _ _ hasks => hs.asks hasks ⟨_, _, rfl⟩

/-! ## Verification -/

/-- The verifier was asked about a subject and an effect, and answered in the end as said. -/
structure Judged (sha effectDigest : String) (verified : Bool) (h h' : History) : Prop where
  same : h' = { h with standing := h'.standing }
  standing : ∀ v ∈ h'.standing, v ∈ h.standing ∨ v.1 = sha
  passed : verified = true → (sha, effectDigest) ∈ h'.standing

theorem judged_of_verdict {sha effectDigest : String} (h : History) (verified : Bool) :
    Judged sha effectDigest verified h (h.judged sha effectDigest verified) := by
  refine ⟨rfl, fun v hv => ?_, fun hverified => ?_⟩
  · refine (List.mem_append.mp hv).imp_right fun hv => ?_
    split at hv
    · rw [List.mem_singleton.mp hv]
    · cases hv
  · rw [History.judged, if_pos hverified]
    exact List.mem_append_right _ List.mem_cons_self

theorem Judged.trans {sha effectDigest : String} {b b' : Bool} {h h₁ h₂ : History}
    (h₁₂ : Judged sha effectDigest b h h₁) (h₂₃ : Judged sha effectDigest b' h₁ h₂) :
    Judged sha effectDigest b' h h₂ := by
  refine ⟨?_, fun v hv => ?_, h₂₃.passed⟩
  · rw [h₂₃.same, h₁₂.same]
  · exact (h₂₃.standing v hv).elim (h₁₂.standing v) .inr

/-- What verifying comes to. -/
def Verifies (s₀ : LoopState W) (pin : ClaimPin) (effect : Payload) (sha effectDigest : String)
    (h : History) (verdict : Bool × String) (s : LoopState W) : Prop :=
  ∃ h', Judged sha effectDigest verdict.1 h h' ∧ Underway s₀ pin effect h' s

theorem comes_verifies {sha effectDigest : String} (hs : Underway s₀ pin effect h s) :
    Comes (L.verifySubject request sha effectDigest)
      (Verifies s₀ pin effect sha effectDigest h) s :=
  comes_verifySubject fun verdict _ _ h₁ h₂ =>
    ⟨h.judged sha effectDigest verdict.1, judged_of_verdict h verdict.1,
      (hs.calm h₁).asks h₂ ⟨_, _, rfl⟩⟩

theorem comes_verifyAgain {sha effectDigest : String} :
    ∀ {retries : ℕ} {verdict : Bool × String} {s : LoopState W},
      Verifies s₀ pin effect sha effectDigest h verdict s →
        Comes (L.verifyAgain request i sha effectDigest retries verdict)
          (Verifies s₀ pin effect sha effectDigest h) s
  | 0, _, _, hs => hs
  | retries + 1, verdict, s, hs => by
    unfold AutonomousLoop.verifyAgain
    split
    · exact hs
    · obtain ⟨h₁, hjudged, hunderway⟩ := hs
      refine calm_transport.comes_bind fun provider s₁ hs₁ => ?_
      refine (calm_emit (by decide)).comes_bind fun _ s₂ hs₂ => ?_
      refine calm_askQuietly.comes_bind fun _ s₃ hs₃ => ?_
      have hs₃ := hunderway.calm ((hs₁.trans hs₂).trans hs₃)
      refine Comes.bind (comes_verifies hs₃) fun verdict' s₄ hs₄ => ?_
      obtain ⟨h₂, hjudged', hunderway'⟩ := hs₄
      exact ⟨hs₃.stage.kept.between hunderway'.stage.kept,
        comes_verifyAgain ⟨h₂, hjudged.trans hjudged', hunderway'⟩⟩

/-! ## Receipts -/

/-- The command of an entry. -/
def commandText (workOrder : String) (entry : Actuation × Disposition) : String :=
  "execute(" ++ workOrder ++ ") via " ++ entry.1.provider ++ " as " ++ entry.1.providerExecutionId ++
    " [" ++ entry.2.value ++ "]"

/-- A receipt lists a ledger, and admits its last entry only. -/
structure Lists (receipt : ExecutionReceipt) (actuations : List Actuation) : Prop where
  count : receipt.ext.actuationCount = actuations.length
  entries : receipt.ext.actuations.map Prod.fst = actuations
  dispositions : receipt.ext.actuations.map Prod.snd =
    List.replicate (actuations.length - 1) Disposition.superseded ++ [.admitted]
  commands : receipt.commands = receipt.ext.actuations.map (commandText receipt.workOrderId)
  consequences : receipt.consequences = actuations.map Actuation.consequence

theorem dispositions_concat {init : List Actuation} {last : Actuation} {pin : ClaimPin}
    (hlast : last.providerExecutionId = pin.providerExecutionId) :
    AutonomousLoop.dispositions (init ++ [last]) pin =
      init.map (fun entry => (entry, Disposition.superseded)) ++ [(last, .admitted)] := by
  unfold AutonomousLoop.dispositions
  rw [List.zipIdx_append, List.map_append]
  congr 1
  · have hlater : ∀ x ∈ init.zipIdx, (x.1, if x.1.providerExecutionId = pin.providerExecutionId ∧
        x.2 + 1 = (init ++ [last]).length then Disposition.admitted else .superseded) =
        (x.1, .superseded) := by
      intro x hx
      have hlt := List.snd_lt_of_mem_zipIdx hx
      rw [if_neg]
      rintro ⟨-, heq⟩
      rw [List.length_append, List.length_singleton] at heq
      omega
    rw [List.map_congr_left hlater]
    calc init.zipIdx.map (fun x => (x.1, Disposition.superseded))
        = (init.zipIdx.map Prod.fst).map (fun entry => (entry, Disposition.superseded)) := by
          rw [List.map_map]
          rfl
      _ = init.map (fun entry => (entry, Disposition.superseded)) := by
          rw [List.zipIdx_map_fst]
  · simp [hlast]

/-- What a receipt is built from. -/
structure Built (request : ExecutionRequest) (effect : Payload) (sha : String)
    (actuations : List Actuation) (receipt : ExecutionReceipt) : Prop where
  lists : Lists receipt actuations
  subjectAfter : receipt.subjectAfter.sha = sha
  evidence : receipt.evidence = [{
    effectDigest := (effect.lookup "effect_digest").getD (.str "")
    evidenceRequirements := request.evidenceRequirements }]

theorem subjectRef_sha {repo sha : String} :
    Calmly (fun r => r.sha = sha) (subjectRef repo sha : LoopM W SubjectRef) := by
  unfold subjectRef
  split
  · exact Calmly.pure rfl
  · exact Calmly.throw _

theorem comes_buildReceipt {subjectBefore : SubjectRef} {outcome : LegalOutcome} {sha : String}
    (hs : Underway s₀ pin effect h s) :
    Comes (L.buildReceipt C request i pin subjectBefore effect outcome sha)
      (fun receipt s' => Underway s₀ pin effect h s' ∧ Built request effect sha s'.actuations receipt)
      s := by
  obtain ⟨entries, last, hactuations, hlast⟩ := hs.entered
  refine Comes.bind (subjectRef_sha.comes fun _ _ => And.intro) fun subjectAfter s₁ h₁ => ?_
  obtain ⟨hsha, h₁⟩ := h₁
  refine ⟨h₁.kept, wp_bind.mpr (wp_get.mpr ?_)⟩
  dsimp only
  refine calm_raising.comes_bind fun ocelDigest s₂ h₂ => ?_
  refine calm_transport.comes_bind fun transport s₃ h₃ => ?_
  refine calm_askQuietly.comes_bind fun capabilities s₄ h₄ => ?_
  refine calm_askQuietly.comes_bind fun ceiling s₅ h₅ => ?_
  refine calm_askQuietly.comes_bind fun protocol s₆ h₆ => ?_
  refine calm_readNow.comes_bind fun tick s₇ h₇ => ?_
  refine calm_readNow.comes_bind fun now s₈ h₈ => ?_
  refine calm_askQuietly.comes_bind fun durableProtocol s₉ h₉ => ?_
  refine calm_transport.comes_bind fun durableTransport s₁₀ h₁₀ => ?_
  have hcalm : Calm s s₁₀ := ((((((((h₁.trans h₂).trans h₃).trans h₄).trans h₅).trans h₆).trans
    h₇).trans h₈).trans h₉).trans h₁₀
  have hactuations' : s₁₀.actuations = entries ++ [last] := hcalm.actuations.trans hactuations
  have hledger : AutonomousLoop.dispositions s₁.actuations pin =
      entries.map (fun entry => (entry, Disposition.superseded)) ++ [(last, .admitted)] := by
    rw [h₁.actuations, hactuations, dispositions_concat hlast]
  refine ⟨hs.calm hcalm, ⟨?_, ?_, ?_, rfl, ?_⟩, hsha, rfl⟩
  · simp [hledger, hactuations']
  · simp [hledger, hactuations', Function.comp_def]
  · simp [hledger, hactuations', Function.comp_def]
  · simp [hledger, hactuations', Function.comp_def]

theorem comes_acknowledge {receipt : ExecutionReceipt} (hs : Underway s₀ pin effect h s) :
    Comes (L.acknowledge request i pin receipt)
      (fun _ s' => Underway s₀ pin effect h s' ∧ s'.actuations = s.actuations) s := by
  refine Growing.comes_bind (Keeps.attempt calm_askQuietly) fun answer s₁ h₁ => ?_
  have hs₁ := hs.calm h₁
  split
  · exact ⟨hs₁, h₁.actuations⟩
  · refine Comes.bind (comes_askOk fun durable s₂ h₂ => h₂) fun durable s₂ h₂ => ⟨h₂.kept, ?_⟩
    have hsame : [Call.fetchReceipt i durable].foldl History.hear h = h := by
      cases durable with
      | none => rfl
      | some fragment => simp [History.hear, hs.crashed]
    have hs₂ := hs₁.asks h₂ (by rw [hsame]; exact ⟨_, _, rfl⟩)
    rw [hsame] at hs₂
    refine calm_transport.comes_bind fun provider s₃ h₃ => ?_
    refine (calm_emit (by decide)).comes fun _ s₄ _ h₄ => ⟨(hs₂.calm h₃).calm h₄, ?_⟩
    rw [h₄.actuations, h₃.actuations, h₂.actuations, h₁.actuations]
  · exact Kept.refl _

/-! ## Attestation -/

/-- The last two reads of the subject agree, and the digest of the last effect is a text. -/
def History.Settles (h : History) : Prop :=
  (∃ reads sha, h.reads = reads ++ [sha, sha]) ∧
    ∃ effect digest, h.effects.getLast? = some effect ∧
      effect.lookup "effect_digest" = some (.str digest)

/-- A receipt attests a subject and a digest that the verifier passed, with no other subject read
since, and the subject is the one that was claimed or the one that the effect declares. -/
structure Attests (T : PyText) (h : History) (receipt : ExecutionReceipt) : Prop where
  verified : ∃ digest, receipt.evidence.map ReceiptEvidence.effectDigest = [.str digest] ∧
    (receipt.subjectAfter.sha, digest) ∈ h.standing
  attributable : ∃ pin effect, h.pin = some pin ∧ h.effects.getLast? = some effect ∧
    (receipt.subjectAfter.sha = pin.pinnedSubjectSha ∨
      ∃ declared, effect.lookup "subject_after_sha" = some declared ∧ declared ≠ .null ∧
        receipt.subjectAfter.sha = T.str declared)

/-- What is observed before a receipt is built for a subject : it is attributable, one more read
followed, and the verifier passed the subject of that read. -/
structure Observed (T : PyText) (pin : ClaimPin) (effect : Payload) (h : History) (sha : String) :
    Prop where
  attributable : AutonomousLoop.subjectAttributable T sha pin effect = true
  verified : ∃ value last, effect.lookup "effect_digest" = some value ∧
    (∃ reads, h.reads = reads ++ [sha, last]) ∧ (∀ v ∈ h.standing, v.1 = last) ∧
      (last, T.str value) ∈ h.standing

theorem lookup_of_truthy {key : String} (h : truthy (AutonomousLoop.get? effect key) ≠ false) :
    ∃ value, effect.lookup key = some value := by
  unfold AutonomousLoop.get? at h
  cases hvalue : effect.lookup key with
  | none =>
    rw [hvalue] at h
    exact absurd rfl h
  | some value => exact ⟨value, rfl⟩

theorem attributable_iff {sha : String} :
    AutonomousLoop.subjectAttributable T sha pin effect = true ↔
      sha = pin.pinnedSubjectSha ∨ ∃ declared, effect.lookup "subject_after_sha" = some declared ∧
        declared ≠ .null ∧ sha = T.str declared := by
  unfold AutonomousLoop.subjectAttributable AutonomousLoop.get?
  cases hdeclared : effect.lookup "subject_after_sha" <;> simp

theorem attests_iff {sha : String} {actuations : List Actuation} {receipt : ExecutionReceipt}
    (hs : Underway s₀ pin effect h s) (hobserved : Observed T pin effect h sha)
    (hbuilt : Built request effect sha actuations receipt) :
    Attests T h receipt ↔ h.Settles := by
  obtain ⟨value, last, hvalue, ⟨reads, hreads⟩, hlast, hverified⟩ := hobserved.verified
  have hevidence : receipt.evidence.map ReceiptEvidence.effectDigest = [value] := by
    rw [hbuilt.evidence, hvalue]
    rfl
  constructor
  · intro hattests
    obtain ⟨digest, hdigest, hstanding⟩ := hattests.verified
    obtain rfl : value = .str digest := (List.cons.inj (hevidence.symm.trans hdigest)).1
    have hsha : sha = last := hbuilt.subjectAfter.symm.trans (hlast _ hstanding)
    exact ⟨⟨reads, sha, by rw [hreads, ← hsha]⟩, effect, digest, hs.witnessed, hvalue⟩
  · rintro ⟨⟨reads', sha', hagree⟩, effect', digest, heffect, hdigest⟩
    obtain rfl : effect' = effect := Option.some.inj (heffect.symm.trans hs.witnessed)
    obtain rfl : value = .str digest := Option.some.inj (hvalue.symm.trans hdigest)
    have hsha : sha = last := by
      have hsame := (List.append_inj' (hreads.symm.trans hagree) rfl).2
      simp only [List.cons.injEq, and_true] at hsame
      exact hsame.1.trans hsame.2.symm
    refine ⟨⟨digest, hevidence, ?_⟩, pin, effect', hs.claimed, hs.witnessed, ?_⟩
    · rw [hbuilt.subjectAfter, hsha, ← T.str_str digest]
      exact hverified
    · rw [hbuilt.subjectAfter]
      exact attributable_iff.mp hobserved.attributable

/-! ## Admission -/

/-- A receipt is admitted under the key of its request. -/
structure Admitted (T : PyText) (request : ExecutionRequest) (s₀ : LoopState W) (h : History)
    (receipt : ExecutionReceipt) (s : LoopState W) : Prop where
  completed : ∃ d, s.completed =
    Function.update s₀.completed request.idempotencyKey (some (d, receipt))
  unreconciled : s.unreconciled = s₀.unreconciled
  lists : Lists receipt s.actuations
  attests : Attests T h receipt ↔ h.Settles

/-- How a run ends that returns. -/
inductive Ends (T : PyText) (request : ExecutionRequest) (s₀ : LoopState W) (h : History)
    (r : LoopResult) (s : LoopState W) : Prop
  | blocked (hreceipt : r.receipt = none) (hkept : Kept s₀ s)
  | remembered (receipt : ExecutionReceipt) (d : String) (hreceipt : r.receipt = some receipt)
      (hcompleted : s₀.completed request.idempotencyKey = some (d, receipt)) (hkept : Kept s₀ s)
  | admitted (receipt : ExecutionReceipt) (hreceipt : r.receipt = some receipt)
      (hadmitted : Admitted T request s₀ h receipt s)

/-- What a run comes to that returns. -/
structure Ended (T : PyText) (request : ExecutionRequest) (s₀ : LoopState W) (r : LoopResult)
    (s : LoopState W) : Prop where
  snapshot : Snapshot r s
  ends : ∃ h, Heard s₀.calls s h ∧ Ledger s h.effects.length ∧ Ends T request s₀ h r s

/-- What a run comes to that raises. -/
def Stops (T : PyText) (request : ExecutionRequest) (s₀ s : LoopState W) : Prop :=
  Kept s₀ s ∨ ∃ h receipt, Heard s₀.calls s h ∧ Admitted T request s₀ h receipt s

/-- What a program comes to that may admit a receipt. -/
abbrev Concludes (T : PyText) (request : ExecutionRequest) (s₀ : LoopState W) (w : LoopM W α)
    (post : α → LoopState W → Prop) (s : LoopState W) : Prop :=
  wp w post (fun _ => Stops T request s₀) True s

theorem Comes.concludes {w : LoopM W α} {post post' : α → LoopState W → Prop}
    (hw : Comes w post s) (hs : Kept s₀ s) (hpost : ∀ a s', post a s' → post' a s') :
    Concludes T request s₀ w post' s :=
  wp_mono hw hpost fun _ _ hkept => .inl (hs.trans hkept)

theorem Comes.concludes_bind {w : LoopM W β} {f : β → LoopM W α} {post : α → LoopState W → Prop}
    {mid : β → LoopState W → Prop} (hw : Comes w mid s) (hs : Kept s₀ s)
    (hf : ∀ b s', mid b s' → Concludes T request s₀ (f b) post s') :
    Concludes T request s₀ (w >>= f) post s :=
  wp_bind.mpr (hw.concludes hs hf)

theorem Growing.concludes_bind {p : Call → Bool} {Q : β → Prop} {w : LoopM W β}
    {f : β → LoopM W α} {post : α → LoopState W → Prop} (hw : Growing p Q w) (hs : Kept s₀ s)
    (hf : ∀ b s', Q b → Grows p s s' → Concludes T request s₀ (f b) post s') :
    Concludes T request s₀ (w >>= f) post s := by
  have hcomes : Comes w (fun b s' => Q b ∧ Grows p s s') s := hw.comes fun _ _ => And.intro
  exact hcomes.concludes_bind hs fun b s' hb => hf b s' hb.1 hb.2

theorem Admitted.calm {receipt : ExecutionReceipt} (hs : Admitted T request s₀ h receipt s)
    (hcalm : Calm s s') : Admitted T request s₀ h receipt s' := by
  obtain ⟨hcompleted, hunreconciled, hlists, hattests⟩ := hs
  rw [← hcalm.completed] at hcompleted
  rw [← hcalm.actuations] at hlists
  exact ⟨hcompleted, hcalm.unreconciled.trans hunreconciled, hlists, hattests⟩

theorem concludes_admitReceipt {receipt : ExecutionReceipt} {reason : String}
    (hs : Underway s₀ pin effect h s) (hlists : Lists receipt s.actuations)
    (hattests : Attests T h receipt ↔ h.Settles) :
    Concludes T request s₀ (L.admitReceipt C request i receipt reason) (Ended T request s₀) s := by
  refine wp_bind.mpr (calm_raising.concludes_bind hs.stage.kept fun digest s₁ _ h₁ =>
    wp_modify.mpr ?_)
  have hs₁ := hs.calm h₁
  set s₂ : LoopState W := { s₁ with
    completed := Function.update s₁.completed request.idempotencyKey (some (digest, receipt)) }
  have hadmitted : Admitted T request s₀ h receipt s₂ := by
    refine ⟨⟨digest, congrArg (Function.update · _ _) hs₁.stage.kept.completed⟩,
      hs₁.stage.kept.unreconciled, ?_, hattests⟩
    rw [← h₁.actuations] at hlists
    exact hlists
  have hheard : Heard s₀.calls s₂ h := hs₁.stage.heard
  have hledger : Ledger s₂ h.effects.length :=
    ⟨hs₁.stage.ledger.sequence, hs₁.stage.ledger.events, hs₁.stage.ledger.emitted⟩
  have hstops {s₃ : LoopState W} (hcalm : Calm s₂ s₃) : Stops T request s₀ s₃ :=
    .inr ⟨h, receipt, hheard.calm hcalm, hadmitted.calm hcalm⟩
  refine Keeps.wp_bind calm_transport (fun provider s₃ _ h₃ => ?_) fun _ _ => hstops
  refine Keeps.wp_bind (calm_emit (by decide)) (fun _ s₄ _ h₄ => ?_) fun _ _ hcalm =>
    hstops (h₃.trans hcalm)
  have hcalm := h₃.trans h₄
  exact ⟨⟨rfl, rfl, rfl⟩, h, hheard.calm hcalm, hledger.grows hcalm,
    .admitted receipt rfl (hadmitted.calm hcalm)⟩

end Parts

/-! ## One iteration -/

section Iteration

variable {W : Type} {C : Canon} {T : PyText} {L : AutonomousLoop W} {request : ExecutionRequest}
  {v : LoopVars L.providers.length} {pin : ClaimPin} {effect : Payload} {fault : TransportFault}
  {s₀ s s' : LoopState W} {h : History}

/-- What an iteration comes to. -/
def Lands (T : PyText) (request : ExecutionRequest) (s₀ : LoopState W) {n : ℕ} :
    LoopVars n ⊕ LoopResult → LoopState W → Prop
  | .inl _, s => ∃ h, Stage s₀ h s
  | .inr r, s => Ended T request s₀ r s

theorem Stage.blocked {r : LoopResult} (hs : Stage s₀ h s) (hr : Snapshot r s)
    (hreceipt : r.receipt = none) : Ended T request s₀ r s :=
  ⟨hr, h, hs.heard, hs.ledger, .blocked hreceipt hs.kept⟩

theorem comes_block {reason : String} {broken : BrokenTerm} (hs : Stage s₀ h s) :
    Comes (.inr <$> L.typedBlock request reason broken : LoopM W L.Next) (Lands T request s₀) s :=
  wp_map.mpr (comes_typedBlock fun _ _ hcalm hr hreceipt => (hs.calm hcalm).blocked hr hreceipt)

theorem comes_backoff (hs : Stage s₀ h s) :
    Comes (L.backoff request v fault) (Lands T request s₀) s := by
  refine calm_transport.comes_bind fun provider s₁ h₁ => ?_
  refine (calm_emit (by decide)).comes_bind fun _ s₂ h₂ => ?_
  refine calm_askQuietly.comes_bind fun _ s₃ h₃ => ?_
  exact ⟨h, hs.calm ((h₁.trans h₂).trans h₃)⟩

theorem comes_substitute (hs : Stage s₀ h s) :
    Comes (L.substitute T request v fault) (Lands T request s₀) s := by
  refine calm_nextCapableIndex.comes_bind fun switched s₁ h₁ => ?_
  have hs₁ := hs.calm h₁
  split
  · refine calm_transport.comes_bind fun provider s₂ h₂ => ?_
    refine (calm_emit (by decide)).comes_bind fun _ s₃ h₃ => ?_
    exact ⟨h, hs₁.calm (h₂.trans h₃)⟩
  · exact comes_block hs₁

theorem comes_retryOrSubstitute (hs : Stage s₀ h s) :
    Comes (L.retryOrSubstitute T request v fault) (Lands T request s₀) s := by
  unfold AutonomousLoop.retryOrSubstitute
  split
  · exact comes_backoff hs
  · exact comes_substitute hs

theorem comes_claimFaulted (hs : Stage s₀ h s) :
    Comes (L.claimFaulted T request v fault) (Lands T request s₀) s := by
  refine calm_transport.comes_bind fun provider s₁ h₁ => ?_
  refine calm_onTransportFault.comes_bind fun _ s₂ h₂ => ?_
  exact comes_retryOrSubstitute (hs.calm (h₁.trans h₂))

theorem comes_executeFaulted (hs : Stage s₀ h s) :
    Comes (L.executeFaulted T request v fault) (Lands T request s₀) s := by
  refine calm_transport.comes_bind fun provider s₁ h₁ => ?_
  refine (calm_emit (by decide)).comes_bind fun _ s₂ h₂ => ?_
  exact comes_retryOrSubstitute (hs.calm (h₁.trans h₂))

theorem comes_resolveFresh (hs : Stage s₀ h s) :
    Comes (L.resolveFresh request) (fun fresh s' => Stage s₀ h s' ∧
      ∀ r, fresh = .inr r → Ended T request s₀ r s') s := by
  refine Growing.comes_bind (Keeps.attempt calm_askQuietly) fun answer s₁ h₁ => ?_
  have hs₁ := hs.calm h₁
  split
  · split
    · refine (calm_emit (by decide)).comes_bind fun _ s₂ h₂ => ?_
      exact ⟨hs₁.calm h₂, fun _ hr => absurd hr Sum.inl_ne_inr⟩
    · exact ⟨hs₁, fun _ hr => absurd hr Sum.inl_ne_inr⟩
  · refine (calm_emit (by decide)).comes_bind fun _ s₂ h₂ => ?_
    have hs₂ := hs₁.calm h₂
    refine wp_map.mpr (comes_typedBlock fun r s₃ h₃ hr hreceipt => ⟨hs₂.calm h₃, fun r' heq => ?_⟩)
    exact Sum.inr.inj heq ▸ (hs₂.calm h₃).blocked hr hreceipt
  · exact Kept.refl _

theorem comes_continueFresh (hs : Stage s₀ h s) :
    Comes (L.continueFresh request v) (Lands T request s₀) s := by
  refine Comes.bind (comes_resolveFresh (T := T) hs) fun fresh s₁ hs₁ =>
    ⟨hs.kept.between hs₁.1.kept, ?_⟩
  cases fresh with
  | inl subject => exact ⟨h, hs₁.1⟩
  | inr r => exact hs₁.2 r rfl

theorem comes_replan {reason block : String} {broken : BrokenTerm}
    {rest : LoopVars L.providers.length → LoopM W L.Next} (hs : Stage s₀ h s)
    (hrest : ∀ v' s', Stage s₀ h s' → Comes (rest v') (Lands T request s₀) s') :
    Comes (L.replan request v reason rest block broken) (Lands T request s₀) s := by
  unfold AutonomousLoop.replan
  dsimp only
  split
  · exact comes_block hs
  · refine calm_transport.comes_bind fun provider s₁ h₁ => ?_
    refine (calm_emit (by decide)).comes_bind fun _ s₂ h₂ => ?_
    exact hrest _ s₂ (hs.calm (h₁.trans h₂))

/-- The receipt of a verified effect is built. -/
theorem concludes_build {subjectBefore : SubjectRef} {sha : String}
    {rest : ExecutionReceipt → LoopM W L.Next} (hs : Underway s₀ pin effect h s)
    (hobserved : Observed T pin effect h sha)
    (hrest : ∀ receipt s', Underway s₀ pin effect h s' → Lists receipt s'.actuations →
      (Attests T h receipt ↔ h.Settles) →
        Concludes T request s₀ (rest receipt) (Lands T request s₀) s') :
    Concludes T request s₀ (askQuietly (L.advance 1) >>= fun _ =>
      L.buildReceipt C request v.providerIndex pin subjectBefore effect .recover sha >>= rest)
      (Lands T request s₀) s := by
  refine calm_askQuietly.concludes_bind hs.stage.kept fun _ s₁ _ h₁ => ?_
  have hs₁ := hs.calm h₁
  refine (comes_buildReceipt hs₁).concludes_bind hs₁.stage.kept fun receipt s₂ hs₂ => ?_
  obtain ⟨hs₂, hbuilt⟩ := hs₂
  exact hrest receipt s₂ hs₂ hbuilt.lists (attests_iff hs₂ hobserved hbuilt)

/-! ### The journal -/

/-- The subject was read, and the verifier passed it with the digest of the effect. -/
def Passed (T : PyText) (effect : Payload) (h h' : History) : Prop :=
  ∃ value last, effect.lookup "effect_digest" = some value ∧ h'.reads = h.reads ++ [last] ∧
    (∀ v ∈ h'.standing, v.1 = last) ∧ (last, T.str value) ∈ h'.standing

/-- What verifying the effect of a journal comes to. -/
def Checks (T : PyText) (request : ExecutionRequest) (s₀ : LoopState W) (pin : ClaimPin)
    (effect : Payload) (h : History) : Option LoopResult → LoopState W → Prop
  | some r, s => Kept s₀ s ∧ Ended T request s₀ r s
  | none, s => ∃ h', Underway s₀ pin effect h' s ∧ Passed T effect h h'

theorem comes_checkBlock {reason : String} {broken : BrokenTerm} {h' : History}
    (hs : Stage s₀ h' s) :
    Comes (some <$> L.typedBlock request reason broken) (Checks T request s₀ pin effect h) s :=
  wp_map.mpr (comes_typedBlock fun _ _ hcalm hr hreceipt =>
    ⟨(hs.calm hcalm).kept, (hs.calm hcalm).blocked hr hreceipt⟩)

theorem comes_verifyEffect (hs : Underway s₀ pin effect h s) :
    Comes (L.verifyEffect T request v.providerIndex effect) (Checks T request s₀ pin effect h) s := by
  unfold AutonomousLoop.verifyEffect
  split
  · exact comes_checkBlock hs.stage
  · next htruthy =>
    obtain ⟨value, hvalue⟩ := lookup_of_truthy htruthy
    refine Comes.bind (comes_readSubject hs) fun sha s₁ hs₁ =>
      ⟨hs.stage.kept.between hs₁.stage.kept, ?_⟩
    refine Comes.bind (comes_verifies hs₁) fun verdict s₂ hs₂ => ?_
    obtain ⟨h₂, hjudged, hs₂⟩ := hs₂
    refine ⟨hs₁.stage.kept.between hs₂.stage.kept, ?_⟩
    refine calm_emitVerification.comes_bind fun _ s₃ h₃ => ?_
    have hs₃ := hs₂.calm h₃
    split
    · next hverified =>
      refine ⟨h₂, hs₃, value, sha, hvalue, ?_, fun v hv => ?_, ?_⟩
      · rw [hjudged.same]
        rfl
      · rcases hjudged.standing v hv with hread | hsame
        · simpa using (List.mem_filter.mp hread).2
        · exact hsame
      · have hpassed := hjudged.passed hverified
        rwa [AutonomousLoop.get?, hvalue] at hpassed
    · exact comes_checkBlock hs₃.stage

theorem concludes_reconstruct (hs : Stage s₀ h s) (hpin : h.pin = some pin)
    (hcrashed : h.crashed = true) :
    Concludes T request s₀ (L.reconstruct C T request v pin) (Lands T request s₀) s := by
  refine Comes.concludes_bind (comes_askOk fun fragment s₁ h₁ => h₁) hs.kept fun fragment s₁ h₁ => ?_
  have hkept : Kept s₀ s₁ := hs.kept.trans h₁.kept
  have hheard := hs.heard.asks h₁
  cases fragment with
  | none => exact (comes_block ⟨hheard, hs.ledger.asks h₁, hkept⟩).concludes hkept fun _ _ => id
  | some fragment =>
    have hseen : History.hear h (.fetchReceipt v.providerIndex (some fragment)) = h.seen fragment :=
      if_pos hcrashed
    rw [List.foldl_cons, List.foldl_nil, hseen] at hheard
    have hwitnessed : Witnessed s₀ pin fragment (h.seen fragment) s₁ :=
      ⟨hheard, hkept, hpin, rfl, h.effects, rfl, hs.ledger.asks h₁⟩
    refine (comes_recordActuation hwitnessed).concludes_bind hkept fun _ s₂ hs₂ => ?_
    refine (comes_readSubject hs₂).concludes_bind hs₂.stage.kept fun sha s₃ hs₃ => ?_
    split
    · exact (comes_replan hs₃.stage fun v' s' => comes_continueFresh).concludes hs₃.stage.kept
        fun _ _ => id
    · next hattributable =>
      refine (comes_verifyEffect hs₃).concludes_bind hs₃.stage.kept fun blocked s₄ hs₄ => ?_
      cases blocked with
      | some r => exact hs₄.2
      | none =>
        obtain ⟨h₄, hs₄, value, last, hvalue, hreads, hlast, hverified⟩ := hs₄
        refine concludes_build hs₄ ⟨by simpa using hattributable, value, last, hvalue, ?_, hlast,
          hverified⟩ fun receipt s₅ hs₅ hlists hattests =>
            wp_map.mpr (concludes_admitReceipt hs₅ hlists hattests)
        exact ⟨(h.seen fragment).reads, by rw [hreads, History.read, List.append_assoc]; rfl⟩

theorem concludes_crashed {point : String} (hs : Stage s₀ h s) (hpin : h.pin = some pin)
    (hcrashed : h.crashed = true) :
    Concludes T request s₀ (L.crashed C T request v pin fault point) (Lands T request s₀) s := by
  refine calm_transport.concludes_bind hs.kept fun provider s₁ _ h₁ => ?_
  refine Growing.concludes_bind (calm_emit (by decide)) (hs.calm h₁).kept fun _ s₂ _ h₂ => ?_
  have h₂ := h₁.trans h₂
  refine calm_transport.concludes_bind (hs.calm h₂).kept fun provider s₃ _ h₃ => ?_
  have h₃ := h₂.trans h₃
  refine Growing.concludes_bind (calm_emit (by decide)) (hs.calm h₃).kept fun _ s₄ _ h₄ => ?_
  have hs₄ := hs.calm (h₃.trans h₄)
  split
  · exact concludes_reconstruct hs₄ hpin hcrashed
  · suffices hcomes : Comes _ (Lands T request s₀) s₄ from hcomes.concludes hs₄.kept fun _ _ => id
    refine calm_transport.comes_bind fun provider s₅ h₅ => ?_
    refine (calm_emit (by decide)).comes_bind fun _ s₆ h₆ => ?_
    refine calm_askQuietly.comes_bind fun _ s₇ h₇ => ?_
    exact ⟨h, hs₄.calm ((h₅.trans h₆).trans h₇)⟩

/-! ### Live effects -/

theorem concludes_executed (hs : Witnessed s₀ pin effect h s) :
    Concludes T request s₀ (L.executed C T request v pin effect) (Lands T request s₀) s := by
  refine (comes_recordActuation hs).concludes_bind hs.kept fun _ s₁ hs₁ => ?_
  refine (comes_readSubject hs₁).concludes_bind hs₁.stage.kept fun sha s₂ hs₂ => ?_
  dsimp only
  split
  · refine (comes_replan hs₂.stage fun v' s' hs' => ?_).concludes hs₂.stage.kept fun _ _ => id
    exact calm_subjectRef.comes_bind fun subject s'' hcalm => comes_continueFresh (hs'.calm hcalm)
  · next hattributable =>
    split
    · exact (comes_block hs₂.stage).concludes hs₂.stage.kept fun _ _ => id
    · next htruthy =>
      obtain ⟨value, hvalue⟩ := lookup_of_truthy htruthy
      refine (comes_verifies hs₂).concludes_bind hs₂.stage.kept fun first s₃ hs₃ => ?_
      have hkept₃ : Kept s₀ s₃ := by
        obtain ⟨_, _, hs₃⟩ := hs₃
        exact hs₃.stage.kept
      refine (comes_verifyAgain hs₃).concludes_bind hkept₃ fun verdict s₄ hs₄ => ?_
      obtain ⟨h₄, hjudged, hs₄⟩ := hs₄
      refine calm_emitVerification.concludes_bind hs₄.stage.kept fun _ s₅ _ h₅ => ?_
      have hs₅ := hs₄.calm h₅
      split
      · exact (comes_block hs₅.stage).concludes hs₅.stage.kept fun _ _ => id
      · next hverified =>
        refine (comes_readSubject hs₅).concludes_bind hs₅.stage.kept fun last s₆ hs₆ => ?_
        split
        · refine (comes_replan hs₆.stage fun v' s' hs' => ?_).concludes hs₆.stage.kept fun _ _ => id
          exact ⟨_, hs'⟩
        · next hlast =>
          obtain rfl : last = sha := not_not.mp hlast
          have hpassed := hjudged.passed (by simpa using hverified)
          rw [AutonomousLoop.text, hvalue, Option.getD_some] at hpassed
          refine concludes_build hs₆ ⟨by simpa using hattributable, value, last, hvalue, ?_,
            fun v hv => by simpa using (List.mem_filter.mp hv).2,
            List.mem_filter.mpr ⟨hpassed, by simp⟩⟩ fun receipt s₇ hs₇ hlists hattests => ?_
          · refine ⟨h.reads, ?_⟩
            rw [History.read, hjudged.same, History.read, List.append_assoc]
            rfl
          · refine (comes_acknowledge hs₇).concludes_bind hs₇.stage.kept fun _ s₈ hs₈ => ?_
            obtain ⟨hs₈, hactuations⟩ := hs₈
            refine wp_map.mpr (concludes_admitReceipt hs₈ ?_ hattests)
            rw [hactuations]
            exact hlists

end Iteration

end GymAct.ExecutionLoop
