import GymAct.LoopAdmission
import GymAct.LoopBudget

/-!
# The actuation ledger of the execution loop

A run witnesses an effect where an execution returns one, and where the journal has one after a
crash. The ledger has one entry for each, and so have the events (`run_accounted`). A receipt
that a run builds lists the whole ledger, with its last entry admitted and the others superseded,
and `run_attests_iff` says when it attests what was verified.
-/

namespace GymAct.ExecutionLoop

open Fallible

section Runs

variable {W : Type} {C : Canon} {T : PyText} {L : AutonomousLoop W} {request : ExecutionRequest}
  {v : LoopVars L.providers.length} {pin : ClaimPin} {s₀ s s' : LoopState W} {h : History}

theorem Blocks.ended {r : LoopResult} (hs : Stage s₀ h s) (h' : Blocks s (some r) s') :
    Ended T request s₀ r s' :=
  (hs.calm h'.1).blocked (h'.2 r rfl).1 (h'.2 r rfl).2

theorem concludes_claimed (hs : Stage s₀ h s) (hpin : h.pin = some pin) :
    Concludes T request s₀ (L.claimed C T request v pin) (Lands T request s₀) s := by
  refine calm_transport.concludes_bind hs.kept fun provider s₁ _ h₁ => ?_
  refine Growing.concludes_bind (calm_emit (by decide)) (hs.calm h₁).kept fun _ s₂ _ h₂ => ?_
  have hs₂ := hs.calm (h₁.trans h₂)
  refine comes_expiryGate.concludes_bind hs₂.kept fun expired s₃ hexpired => ?_
  cases expired with
  | some r => exact hexpired.ended hs₂
  | none =>
    have hs₃ := hs₂.calm hexpired.1
    refine Comes.concludes_bind (comes_attempt_ask fun _ _ hasks => hasks) hs₃.kept
      fun answer s₄ h₄ => ?_
    have hheard := hs₃.heard.asks h₄
    have hkept := hs₃.kept.trans h₄.kept
    have hledger := hs₃.ledger.asks h₄
    rcases answer with (fault | e) | effect
    · have hs₄ : Stage s₀ { h with crashed := fault.injectionPoint.isSome } s₄ :=
        ⟨hheard, hledger, hkept⟩
      dsimp only
      split
      · next point hpoint => exact concludes_crashed hs₄ hpin (by simp [hpoint])
      · exact (comes_executeFaulted hs₄).concludes hkept fun _ _ => id
    · exact .inl hkept
    · exact concludes_executed ⟨hheard, hkept, hpin, rfl, h.effects, rfl, hledger⟩

theorem concludes_iteration (hs : Stage s₀ h s) :
    Concludes T request s₀ (L.iteration C T request v) (Lands T request s₀) s := by
  refine calm_exhausted.concludes_bind hs.kept fun exhausted s₁ _ h₁ => ?_
  have hs₁ := hs.calm h₁
  split
  · exact (comes_block hs₁).concludes hs₁.kept fun _ _ => id
  · refine comes_expiryGate.concludes_bind hs₁.kept fun expired s₂ hexpired => ?_
    cases expired with
    | some r => exact hexpired.ended hs₁
    | none =>
      have hs₂ := hs₁.calm hexpired.1
      refine Comes.concludes_bind (comes_attempt_ask fun _ _ hasks => hasks) hs₂.kept
        fun answer s₃ h₃ => ?_
      have hheard := hs₂.heard.asks h₃
      have hkept := hs₂.kept.trans h₃.kept
      have hledger := hs₂.ledger.asks h₃
      rcases answer with (fault | e) | pin
      · exact (comes_claimFaulted ⟨hheard, hledger, hkept⟩).concludes hkept fun _ _ => id
      · exact .inl hkept
      · have hs₃ : Stage s₀ { h with pin := some pin } s₃ := ⟨hheard, hledger, hkept⟩
        exact concludes_claimed hs₃ rfl

/-- A run begins with an empty ledger and no events. -/
def LoopState.begun (s : LoopState W) : LoopState W := { s with events := [], actuations := [] }

theorem stage_begun (s : LoopState W) : Stage s.begun {} s.begun :=
  ⟨⟨[], by simp, rfl⟩, ⟨rfl, rfl, by simp [LoopState.begun]⟩, .refl _⟩

theorem Gated.ended {r : LoopResult} (h : Gated request s.begun (some r) s') :
    Ended T request s.begun r s' := by
  obtain ⟨hsnapshot, hreceipt⟩ := h.2 r rfl
  have hs' := (stage_begun s).calm h.1
  cases hr : r.receipt with
  | none => exact hs'.blocked hsnapshot hr
  | some receipt =>
    obtain ⟨d, hd⟩ := hreceipt receipt hr
    exact ⟨hsnapshot, {}, hs'.heard, hs'.ledger, .remembered receipt d hr hd hs'.kept⟩

theorem concludes_runOnce (fuel : ℕ) (s : LoopState W) :
    Concludes T request s.begun (L.runOnce C T fuel request) (Ended T request s.begun) s := by
  refine wp_bind.mpr (wp_modify.mpr ?_)
  refine Comes.concludes_bind (comes_gates rfl) (.refl s.begun) fun blocked s₁ h₁ => ?_
  cases blocked with
  | some r => exact h₁.ended
  | none =>
    have hs₁ := (stage_begun s).calm h₁.1
    refine Growing.concludes_bind (calm_emit (by decide)) hs₁.kept fun _ s₂ _ h₂ => ?_
    have hs₂ := hs₁.calm h₂
    refine (comes_resolveFresh (T := T) hs₂).concludes_bind hs₂.kept fun fresh s₃ hs₃ => ?_
    cases fresh with
    | inr r => exact hs₃.2 r rfl
    | inl subjectBefore =>
      refine calm_nextCapableIndex.concludes_bind hs₃.1.kept fun index s₄ _ h₄ => ?_
      have hs₄ := hs₃.1.calm h₄
      cases index with
      | none =>
        exact Comes.concludes (comes_typedBlock fun r s₅ h₅ hr hreceipt =>
          (hs₄.calm h₅).blocked hr hreceipt) hs₄.kept fun _ _ => id
      | some index =>
        refine wp_iterate (I := fun _ t => ∃ h, Stage s.begun h t) (μ := fun _ => 0)
          (fun v t ht => ?_) ⟨_, hs₄⟩ (.inl trivial)
        obtain ⟨h, ht⟩ := ht
        refine wp_mono (concludes_iteration ht) (fun next t' hnext => ?_) fun _ _ => id
        cases next with
        | inl v' => exact ⟨hnext, .inl trivial⟩
        | inr r => exact hnext

/-! ## Whole runs -/

/-- A result counts the effects of its run : by its ledger, and by its events. -/
structure Accounts (effects : List Payload) (r : LoopResult) : Prop where
  count : r.actuationCount = effects.length
  actuations : r.actuations.length = effects.length
  sequence : r.actuations.map Actuation.sequence = List.range' 1 effects.length
  events : r.events.countP (fun e => e.eventType = "actuation") = effects.length

theorem Ended.accounts {r : LoopResult} (hr : Snapshot r s) (hledger : Ledger s h.effects.length) :
    Accounts h.effects r := by
  refine ⟨?_, ?_, ?_, ?_⟩
  · rw [hr.count, hledger.length]
  · rw [hr.actuations, hledger.length]
  · rw [hr.actuations, hledger.sequence]
  · rw [hr.events, hledger.events]

/-- The end of a run : what was actuated without a receipt is remembered as unreconciled. -/
def Registers (request : ExecutionRequest) (r : LoopResult) (t s : LoopState W) : Prop :=
  r.receipt = none ∧ 0 < r.actuationCount ∧ (∃ entry, s =
      { t with unreconciled :=
          Function.update t.unreconciled request.idempotencyKey (some entry) }) ∨
    ¬(r.receipt = none ∧ 0 < r.actuationCount) ∧ s = t

theorem Ended.kept {r : LoopResult} (h : Ended T request s₀ r s) (hr : r.receipt = none) :
    Kept s₀ s := by
  obtain ⟨_, -, -, hends⟩ := h.ends
  cases hends with
  | blocked _ hkept => exact hkept
  | remembered receipt d hreceipt _ hkept => exact hkept
  | admitted receipt hreceipt _ => cases hr.symm.trans hreceipt

/-- What a run comes to. -/
theorem wp_run (fuel : ℕ) (s : LoopState W) :
    wp (L.run C T fuel request)
      (fun r s' => ∃ t, Ended T request s.begun r t ∧ Registers request r t s')
      (fun _ => Stops T request s.begun) True s := by
  refine wp_bind.mpr (wp_mono (concludes_runOnce fuel s) (fun r t ht => ?_) fun _ _ => id)
  split
  · next hnone =>
    cases requestDigest C request with
    | error e => exact .inl (ht.kept hnone.1)
    | ok digest => exact ⟨t, ht, .inl ⟨hnone.1, hnone.2, _, rfl⟩⟩
  · next hnone => exact ⟨t, ht, .inr ⟨hnone, rfl⟩⟩

theorem Registers.calls_eq {r : LoopResult} {t : LoopState W} (h : Registers request r t s) :
    s.calls = t.calls := by
  obtain ⟨-, -, entry, rfl⟩ | ⟨-, rfl⟩ := h <;> rfl

theorem Registers.completed_eq {r : LoopResult} {t : LoopState W} (h : Registers request r t s) :
    s.completed = t.completed := by
  obtain ⟨-, -, entry, rfl⟩ | ⟨-, rfl⟩ := h <;> rfl

theorem ended_of_run {fuel : ℕ} {r : LoopResult} (h : L.run C T fuel request s = some (.ok r, s')) :
    ∃ t, Ended T request s.begun r t ∧ Registers request r t s' := by
  have hwp : wp (L.run C T fuel request)
      (fun r s' => ∃ t, Ended T request s.begun r t ∧ Registers request r t s')
      (fun _ => Stops T request s.begun) True s := wp_run fuel s
  rwa [wp, h] at hwp

theorem stops_of_run {fuel : ℕ} {e : Raised} (h : L.run C T fuel request s = some (.error e, s')) :
    Stops T request s.begun s' := by
  have hwp : wp (L.run C T fuel request)
      (fun r s' => ∃ t, Ended T request s.begun r t ∧ Registers request r t s')
      (fun _ => Stops T request s.begun) True s := wp_run fuel s
  rwa [wp, h] at hwp

end Runs

/-- Every result of a run counts the effects that its executions returned and that the journal
had : in its ledger and by its events, numbered in order. A receipt that the run built lists the
ledger, and admits its last entry alone. -/
theorem run_accounted {W : Type} (C : Canon) (T : PyText) (L : AutonomousLoop W)
    (request : ExecutionRequest) (fuel : ℕ) (s s' : LoopState W) (r : LoopResult)
    (h : L.run C T fuel request s = some (.ok r, s')) :
    ∃ calls, s'.calls = s.calls ++ calls ∧ Accounts (history calls).effects r ∧
      ∀ receipt, r.receipt = some receipt →
        (∃ d, s.completed request.idempotencyKey = some (d, receipt)) ∨
          Lists receipt r.actuations := by
  obtain ⟨t, ht, hregisters⟩ := ended_of_run h
  obtain ⟨_, ⟨calls, hcalls, rfl⟩, hledger, hends⟩ := ht.ends
  refine ⟨calls, hregisters.calls_eq.trans hcalls, Ended.accounts ht.snapshot hledger,
    fun receipt hreceipt => ?_⟩
  cases hends with
  | blocked hnone _ => cases hnone.symm.trans hreceipt
  | remembered receipt' d hreceipt' hcompleted _ =>
    obtain rfl : receipt' = receipt := Option.some.inj (hreceipt'.symm.trans hreceipt)
    exact .inl ⟨d, hcompleted⟩
  | admitted receipt' hreceipt' hadmitted =>
    obtain rfl : receipt' = receipt := Option.some.inj (hreceipt'.symm.trans hreceipt)
    rw [ht.snapshot.actuations]
    exact .inr hadmitted.lists

/-- A receipt that a run builds attests what was verified exactly when the last two reads of the
subject agree and the digest of the last effect is a text. -/
theorem run_attests_iff {W : Type} (C : Canon) (T : PyText) (L : AutonomousLoop W)
    (request : ExecutionRequest) (fuel : ℕ) (s s' : LoopState W)
    (answer : Except Raised LoopResult) (h : L.run C T fuel request s = some (answer, s'))
    (hfresh : s.completed request.idempotencyKey = none) (d : String) (receipt : ExecutionReceipt)
    (hreceipt : s'.completed request.idempotencyKey = some (d, receipt)) :
    (∀ r, answer = .ok r → r.receipt = some receipt) ∧
      ∃ calls, s'.calls = s.calls ++ calls ∧
        (Attests T (history calls) receipt ↔ (history calls).Settles) := by
  have hkept {t : LoopState W} (hs : Kept s.begun t)
      (ht : t.completed request.idempotencyKey = some (d, receipt)) : False := by
    rw [hs.completed] at ht
    cases hfresh.symm.trans ht
  have hsame {h : History} {receipt' : ExecutionReceipt} {t : LoopState W}
      (hs : Admitted T request s.begun h receipt' t)
      (ht : t.completed request.idempotencyKey = some (d, receipt)) : receipt' = receipt := by
    obtain ⟨d', hd'⟩ := hs.completed
    rw [hd', Function.update_self] at ht
    exact congrArg Prod.snd (Option.some.inj ht)
  cases answer with
  | error e =>
    refine ⟨fun r hr => (by cases hr), ?_⟩
    rcases stops_of_run h with hs' | ⟨_, receipt', ⟨calls, hcalls, rfl⟩, hs'⟩
    · exact (hkept hs' hreceipt).elim
    · obtain rfl := hsame hs' hreceipt
      exact ⟨calls, hcalls, hs'.attests⟩
  | ok r =>
    obtain ⟨t, ht, hregisters⟩ := ended_of_run h
    obtain ⟨_, ⟨calls, hcalls, rfl⟩, -, hends⟩ := ht.ends
    rw [hregisters.completed_eq] at hreceipt
    cases hends with
    | blocked _ hs' => exact (hkept hs' hreceipt).elim
    | remembered _ _ _ _ hs' => exact (hkept hs' hreceipt).elim
    | admitted receipt' hreceipt' hs' =>
      obtain rfl := hsame hs' hreceipt
      refine ⟨fun r' hr' => ?_, calls, hregisters.calls_eq.trans hcalls, hs'.attests⟩
      rw [← Except.ok.inj hr', hreceipt']

/-! ## A subject that moves under the journal -/

/-- The worker crashes after its actuation, and the journal has it. The subject is read from a
list. -/
def journalProvider : ExecutionProvider (List String) where
  capabilities := fun w => (.ok ["edit"], w)
  transport := fun w => (.ok "local", w)
  availability := fun w => (.ok true, w)
  authorityCeiling := fun w => (.ok "DO", w)
  receiptProtocol := fun w => (.ok "journal", w)
  currentSubjectSha := fun _ w => (.ok (w.headD "0123456"), w.tail)
  resolveSubject := fun _ w => (.ok sampleSubject, w)
  claim := fun _ w => (.ok ⟨"execution", "0123456"⟩, w)
  execute := fun _ _ w =>
    (.error (.fault { kind := "worker_sigkill", appliedBefore := true,
                      injectionPoint := some "after" }), w)
  fetchReceipt := fun _ w => (.ok (some [("effect_digest", .str "digest")]), w)
  ack := fun _ w => (.ok (), w)

def journalLoop : AutonomousLoop (List String) where
  providers := [journalProvider]
  verify := fun _ _ _ w => (.ok (true, "verified"), w)
  isValid := fun _ w => (.ok true, w)
  diskMbAvailable := fun w => (.ok 1024, w)
  cpuCoresAvailable := fun w => (.ok (.finite 4), w)
  now := fun w => (.ok 0, w)
  advance := fun _ w => (.ok (), w)
  nonempty := by decide

/-- A run of the loop over what is read of the subject. -/
def journalRun (reads : List String) :
    Option (Except Raised LoopResult × LoopState (List String)) :=
  journalLoop.run .reference .sample 15 sampleRequest { world := reads }

theorem journalRun_counts : ∃ r s', journalRun ["0123456", "0123456"] = some (.ok r, s') ∧
    ∃ calls, s'.calls = [] ++ calls ∧ Accounts (history calls).effects r ∧
      ∀ receipt, r.receipt = some receipt →
        (∃ d : String, none = some (d, receipt)) ∨ Lists receipt r.actuations := by
  have hreturns : (journalRun ["0123456", "0123456"]).any (fun p => p.1.isOk) = true := by
    decide +kernel
  obtain ⟨⟨answer, s'⟩, hrun, hok⟩ := Option.any_eq_true _ _ |>.mp hreturns
  cases answer with
  | error e => cases hok
  | ok r =>
    exact ⟨r, s', hrun, run_accounted .reference .sample journalLoop sampleRequest 15 _ s' r hrun⟩

theorem journalRun_attests : ∃ s' d receipt answer,
    journalRun ["0123456", "0123456"] = some (answer, s') ∧
      s'.completed sampleRequest.idempotencyKey = some (d, receipt) ∧
        (∀ r, answer = .ok r → r.receipt = some receipt) ∧
          ∃ calls, s'.calls = [] ++ calls ∧
            (Attests .sample (history calls) receipt ↔ (history calls).Settles) := by
  have hcompletes : (journalRun ["0123456", "0123456"]).any (fun p =>
      (p.2.completed sampleRequest.idempotencyKey).isSome) = true := by decide +kernel
  obtain ⟨⟨answer, s'⟩, hrun, hsome⟩ := Option.any_eq_true _ _ |>.mp hcompletes
  obtain ⟨⟨d, receipt⟩, hreceipt⟩ := Option.isSome_iff_exists.mp hsome
  exact ⟨s', d, receipt, answer, hrun, hreceipt, run_attests_iff .reference .sample journalLoop
    sampleRequest 15 _ s' answer hrun rfl d receipt hreceipt⟩

/-- The journal is verified for one subject, and the receipt stands alive for another. -/
theorem journalRun_verified_elsewhere : ∃ r s' receipt,
    journalRun ["0123456", "bbbbbbb"] = some (.ok r, s') ∧ r.standing = .alive ∧
      r.receipt = some receipt ∧ ¬Attests .sample (history s'.calls) receipt := by
  have hrun : (journalRun ["0123456", "bbbbbbb"]).any (fun p =>
      match p.1 with
      | .error _ => false
      | .ok r => decide (r.standing = .alive) && r.receipt.any fun receipt =>
          (history p.2.calls).standing.all fun v => decide (v.1 ≠ receipt.subjectAfter.sha)) =
      true := by decide +kernel
  obtain ⟨⟨answer, s'⟩, hrun, hreceipt⟩ := Option.any_eq_true _ _ |>.mp hrun
  cases answer with
  | error e => cases hreceipt
  | ok r =>
    obtain ⟨hstanding, hreceipt⟩ := Bool.and_eq_true_iff.mp hreceipt
    obtain ⟨receipt, hreceipt, hall⟩ := Option.any_eq_true _ _ |>.mp hreceipt
    refine ⟨r, s', receipt, hrun, of_decide_eq_true hstanding, hreceipt, fun hattests => ?_⟩
    obtain ⟨digest, -, hmem⟩ := hattests.verified
    exact of_decide_eq_true (List.all_eq_true.mp hall _ hmem) rfl

end GymAct.ExecutionLoop
