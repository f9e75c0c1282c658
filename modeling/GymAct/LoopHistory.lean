import GymAct.LoopTrace

/-!
# What a run of the execution loop hears

The calls of a run tell what effects it witnessed, what it read and what the verifier passed
(`history`). The ledger keeps up with them (`Stage`), and what the loop remembers of earlier runs
stays as it is until a receipt is admitted (`Comes`).
-/

namespace GymAct.ExecutionLoop

open Fallible

/-! ## What a run has heard -/

/-- What a run has heard so far. -/
structure History where
  /-- The last execution crashed. -/
  crashed : Bool := false
  /-- The effects that executions returned, and that the journal had after a crash. -/
  effects : List Payload := []
  /-- The last claim. -/
  pin : Option ClaimPin := none
  /-- The SHAs that were read. -/
  reads : List String := []
  /-- What the verifier passed and no later read contradicts. -/
  standing : List (String × String) := []

namespace History

variable (h : History)

/-- A SHA is read. -/
def read (sha : String) : History :=
  { h with
    reads := h.reads ++ [sha]
    standing := h.standing.filter fun v => v.1 = sha }

/-- The verifier answers. -/
def judged (sha effectDigest : String) (verified : Bool) : History :=
  { h with standing := h.standing ++ if verified then [(sha, effectDigest)] else [] }

/-- An effect is witnessed. -/
def seen (effect : Payload) : History :=
  { h with
    crashed := false
    effects := h.effects ++ [effect] }

def hear : Call → History
  | .claim _ (.ok pin) => { h with pin := some pin }
  | .execute _ (.ok effect) => h.seen effect
  | .execute _ (.error (.fault fault)) => { h with crashed := fault.injectionPoint.isSome }
  | .execute _ (.error (.error _)) => { h with crashed := false }
  | .fetchReceipt _ (some fragment) => if h.crashed then h.seen fragment else h
  | .currentSubjectSha _ sha => h.read sha
  | .verify sha effectDigest verified => h.judged sha effectDigest verified
  | _ => h

theorem hear_of_isAmbient {c : Call} (hc : c.isAmbient = true) : h.hear c = h := by
  cases c <;> first | rfl | cases hc

theorem foldl_hear_of_isAmbient : ∀ {calls : List Call} {h : History},
    (∀ c ∈ calls, c.isAmbient = true) → calls.foldl hear h = h
  | [], _, _ => rfl
  | c :: calls, h, hcalls => by
    rw [List.foldl_cons, hear_of_isAmbient h (hcalls c List.mem_cons_self)]
    exact foldl_hear_of_isAmbient fun c' hc' => hcalls c' (List.mem_cons_of_mem c hc')

end History

/-- What the calls of a run tell. -/
def history (calls : List Call) : History := calls.foldl History.hear {}

/-! ## The ledger -/

section Ledger

variable {W α β : Type}

/-- The calls of a run that began after `base`. -/
def Heard (base : List Call) (s : LoopState W) (h : History) : Prop :=
  ∃ calls, s.calls = base ++ calls ∧ history calls = h

/-- The ledger numbers its entries, and each has its event. -/
structure Ledger (s : LoopState W) (n : ℕ) : Prop where
  sequence : s.actuations.map Actuation.sequence = List.range' 1 n
  events : s.events.countP (fun e => e.eventType = "actuation") = n
  emitted : ∀ e ∈ s.events, e.Emitted

theorem Ledger.length {s : LoopState W} {n : ℕ} (h : Ledger s n) : s.actuations.length = n := by
  simpa using congrArg List.length h.sequence

/-- The loop remembers the same of earlier runs. -/
structure Kept (s s' : LoopState W) : Prop where
  completed : s'.completed = s.completed
  unreconciled : s'.unreconciled = s.unreconciled

/-- Where a run stands that began in `s₀` : what it has heard, with an entry for every effect that
was witnessed. -/
structure Stage (s₀ : LoopState W) (h : History) (s : LoopState W) : Prop where
  heard : Heard s₀.calls s h
  ledger : Ledger s h.effects.length
  kept : Kept s₀ s

variable {base : List Call} {s₀ s s' s'' : LoopState W} {h : History} {n : ℕ} {p : Call → Bool}

theorem Kept.refl (s : LoopState W) : Kept s s := ⟨rfl, rfl⟩

theorem Kept.trans (h : Kept s s') (h' : Kept s' s'') : Kept s s'' :=
  ⟨h'.completed.trans h.completed, h'.unreconciled.trans h.unreconciled⟩

theorem Kept.between (h : Kept s s') (h' : Kept s s'') : Kept s' s'' :=
  ⟨h'.completed.trans h.completed.symm, h'.unreconciled.trans h.unreconciled.symm⟩

theorem Grows.kept (h : Grows p s s') : Kept s s' := ⟨h.completed, h.unreconciled⟩

theorem Heard.append {calls : List Call} (hs : Heard base s h) (hcalls : s'.calls = s.calls ++ calls) :
    Heard base s' (calls.foldl History.hear h) := by
  obtain ⟨before, hbefore, rfl⟩ := hs
  exact ⟨before ++ calls, by rw [hcalls, hbefore, List.append_assoc], by simp [history]⟩

theorem Heard.calm (hs : Heard base s h) (hcalm : Calm s s') : Heard base s' h := by
  obtain ⟨calls, hcalls, hall⟩ := hcalm.calls
  have hheard := hs.append hcalls
  rwa [History.foldl_hear_of_isAmbient hall] at hheard

theorem Ledger.grows (hs : Ledger s n) (hgrows : Grows p s s') : Ledger s' n := by
  obtain ⟨events, hevents, hquiet⟩ := hgrows.events
  have hnone : events.countP (fun e => e.eventType = "actuation") = 0 :=
    List.countP_eq_zero.mpr fun e he => by simp [(hquiet e he).2]
  refine ⟨by rw [hgrows.actuations]; exact hs.sequence, ?_, ?_⟩
  · rw [hevents, List.countP_append, hnone]
    exact hs.events
  · rw [hevents]
    exact fun e he => (List.mem_append.mp he).elim (hs.emitted e) fun he => (hquiet e he).1

theorem Stage.calm (hs : Stage s₀ h s) (hcalm : Calm s s') : Stage s₀ h s' :=
  ⟨hs.heard.calm hcalm, hs.ledger.grows hcalm, hs.kept.trans hcalm.kept⟩

/-! ## Runs that return -/

/-- What a program comes to if it returns. Where it raises, the loop remembers the same. -/
abbrev Comes (w : LoopM W α) (post : α → LoopState W → Prop) (s : LoopState W) : Prop :=
  wp w post (fun _ => Kept s) True s

theorem Comes.mono {w : LoopM W α} {post post' : α → LoopState W → Prop} (hw : Comes w post s)
    (h : ∀ a s', post a s' → post' a s') : Comes w post' s := wp_mono hw h fun _ _ => id

/-- What a program comes to after a step that remembers the same. -/
theorem Comes.of_kept {w : LoopM W α} {post : α → LoopState W → Prop} (hw : Comes w post s')
    (h : Kept s s') : wp w post (fun _ => Kept s) True s' :=
  wp_mono hw (fun _ _ => id) fun _ _ => h.trans

/-- A program that continues with what another came to. -/
theorem Comes.bind {w : LoopM W β} {f : β → LoopM W α} {post : α → LoopState W → Prop}
    {mid : β → LoopState W → Prop} (hw : Comes w mid s)
    (hmid : ∀ b s', mid b s' → Kept s s' ∧ Comes (f b) post s') : Comes (w >>= f) post s := by
  refine wp_bind.mpr (wp_mono hw (fun b s' hb => ?_) fun _ _ => id)
  obtain ⟨hkept, hf⟩ := hmid b s' hb
  exact hf.of_kept hkept

theorem Growing.comes {Q : α → Prop} {w : LoopM W α} {post : α → LoopState W → Prop}
    (hw : Growing p Q w) (hpost : ∀ a s', Q a → Grows p s s' → post a s') : Comes w post s :=
  Keeps.wp hw hpost fun _ _ hs => hs.kept

theorem Growing.comes_bind {Q : β → Prop} {w : LoopM W β} {f : β → LoopM W α}
    {post : α → LoopState W → Prop} (hw : Growing p Q w)
    (hf : ∀ b s', Grows p s s' → Comes (f b) post s') : Comes (w >>= f) post s :=
  Comes.bind (hw.comes fun _ _ _ hs => hs) fun b s' hs => ⟨hs.kept, hf b s' hs⟩

/-- The result is a snapshot of the ledger and the events. -/
structure Snapshot (r : LoopResult) (s : LoopState W) : Prop where
  count : r.actuationCount = s.actuations.length
  actuations : r.actuations = s.actuations
  events : r.events = s.events

theorem comes_report {outcome : LegalOutcome} {standing : Standing}
    {episodeStanding : EpisodeStanding} {receipt : Option ExecutionReceipt}
    {typedReason : Option String} {brokenTerm : Option BrokenTerm}
    {post : LoopResult → LoopState W → Prop}
    (h : ∀ r, Snapshot r s → r.receipt = receipt → post r s) :
    Comes (AutonomousLoop.report outcome standing episodeStanding receipt typedReason brokenTerm)
      post s :=
  h _ ⟨rfl, rfl, rfl⟩ rfl

end Ledger

section Gates

variable {W : Type} {C : Canon} {T : PyText} {L : AutonomousLoop W} {request : ExecutionRequest}
  {s : LoopState W} {post : LoopResult → LoopState W → Prop}

theorem comes_refuse {reason : String} {episodeStanding : EpisodeStanding} {broken : BrokenTerm}
    {extra : Payload} (h : ∀ r s', Calm s s' → Snapshot r s' → r.receipt = none → post r s') :
    Comes (L.refuse request reason episodeStanding broken extra) post s :=
  (calm_emit (by decide)).comes_bind fun _ s' hs =>
    comes_report fun r hr hreceipt => h r s' hs hr hreceipt

theorem comes_typedBlock {reason : String} {broken : BrokenTerm} {extra : Payload}
    (h : ∀ r s', Calm s s' → Snapshot r s' → r.receipt = none → post r s') :
    Comes (L.typedBlock request reason broken extra) post s :=
  (calm_emit (by decide)).comes_bind fun _ s' hs =>
    comes_report fun r hr hreceipt => h r s' hs hr hreceipt

/-- What a gate comes to that blocks without a receipt, or lets the run pass. -/
def Blocks (s : LoopState W) (blocked : Option LoopResult) (s' : LoopState W) : Prop :=
  Calm s s' ∧ ∀ r, blocked = some r → Snapshot r s' ∧ r.receipt = none

/-- What a gate comes to. A receipt that it answers is one of an earlier run. -/
def Gated (request : ExecutionRequest) (s : LoopState W) (blocked : Option LoopResult)
    (s' : LoopState W) : Prop :=
  Calm s s' ∧ ∀ r, blocked = some r → Snapshot r s' ∧ ∀ receipt, r.receipt = some receipt →
    ∃ d, s.completed request.idempotencyKey = some (d, receipt)

theorem Blocks.pass (h : Calm s s') : Blocks s none s' := ⟨h, fun _ hr => (by cases hr)⟩

theorem Blocks.gated {blocked : Option LoopResult} (h : Blocks s blocked s') :
    Gated request s blocked s' := by
  refine ⟨h.1, fun r hr => ⟨(h.2 r hr).1, fun receipt hreceipt => ?_⟩⟩
  rw [(h.2 r hr).2] at hreceipt
  cases hreceipt

theorem Blocks.of_calm {blocked : Option LoopResult} {s₀ : LoopState W} (h₀ : Calm s₀ s)
    (h : Blocks s blocked s') : Blocks s₀ blocked s' := ⟨h₀.trans h.1, h.2⟩

theorem comes_some_refuse {reason : String} {episodeStanding : EpisodeStanding} {broken : BrokenTerm}
    {extra : Payload} :
    Comes (some <$> L.refuse request reason episodeStanding broken extra) (Blocks s) s :=
  wp_map.mpr (comes_refuse fun _ _ hs hr hreceipt =>
    ⟨hs, fun _ heq => Option.some.inj heq ▸ ⟨hr, hreceipt⟩⟩)

theorem comes_some_typedBlock {reason : String} {broken : BrokenTerm} {extra : Payload} :
    Comes (some <$> L.typedBlock request reason broken extra) (Blocks s) s :=
  wp_map.mpr (comes_typedBlock fun _ _ hs hr hreceipt =>
    ⟨hs, fun _ heq => Option.some.inj heq ▸ ⟨hr, hreceipt⟩⟩)

/-- What blocks after looking around blocks. -/
theorem comes_of_calm {w : LoopM W (Option LoopResult)} (h : Calm s s') (hw : Comes w (Blocks s') s') :
    Comes w (Blocks s) s' := wp_mono hw (fun _ _ hb => hb.of_calm h) fun _ _ => id

theorem comes_expiryGate : Comes (L.expiryGate request) (Blocks s) s := by
  unfold AutonomousLoop.expiryGate
  split
  · exact Blocks.pass (Grows.refl s)
  · refine calm_readNow.comes_bind fun now s' hs => ?_
    split
    · exact comes_of_calm hs comes_some_refuse
    · exact Blocks.pass hs

theorem comes_authorityGate : Comes (L.authorityGate request) (Blocks s) s := by
  refine (calm_askOk fun _ => rfl).comes_bind fun valid s' hs => ?_
  split
  · exact comes_of_calm hs comes_expiryGate
  · exact comes_of_calm hs comes_some_refuse

theorem comes_feasibilityGate : Comes (L.feasibilityGate T request) (Blocks s) s := by
  refine calm_feasible.comes_bind fun feasible s' hs => ?_
  split
  · exact Blocks.pass hs
  · exact comes_of_calm hs comes_some_refuse

theorem comes_resourceGate : Comes (L.resourceGate T request) (Blocks s) s := by
  refine calm_askQuietly.comes_bind fun disk s₁ h₁ => ?_
  refine calm_askQuietly.comes_bind fun cpu s₂ h₂ => ?_
  have hs := h₁.trans h₂
  split
  · exact comes_of_calm hs comes_some_typedBlock
  · split
    · exact comes_of_calm hs comes_some_typedBlock
    · exact Blocks.pass hs

/-- Nothing was actuated when the gates are passed. -/
theorem comes_unreconciledGate (hactuations : s.actuations = []) :
    Comes (L.unreconciledGate C request) (Blocks s) s := by
  have hzero {r : LoopResult} {s' : LoopState W} (hs : Calm s s') (hr : Snapshot r s')
      (hreceipt : r.receipt = none) :
      Blocks s (some { r with actuationCount := 0, actuations := [] }) s' := by
    have hnone : s'.actuations = [] := hs.actuations.trans hactuations
    refine ⟨hs, fun r' heq => ?_⟩
    obtain rfl := Option.some.inj heq
    exact ⟨⟨by rw [hnone, List.length_nil], hnone.symm, hr.events⟩, hreceipt⟩
  unfold AutonomousLoop.unreconciledGate
  refine calm_get.comes_bind fun state s₁ h₁ => ?_
  split
  · exact Blocks.pass h₁
  · refine calm_raising.comes_bind fun digest s₂ h₂ => ?_
    split
    · exact wp_bind.mpr (comes_refuse fun r s' hs => hzero ((h₁.trans h₂).trans hs))
    · exact wp_bind.mpr (comes_typedBlock fun r s' hs => hzero ((h₁.trans h₂).trans hs))

theorem comes_dedupeGate (hactuations : s.actuations = []) :
    Comes (L.dedupeGate C request) (Gated request s) s := by
  unfold AutonomousLoop.dedupeGate
  refine wp_bind.mpr (wp_get.mpr ?_)
  split
  · exact wp_mono (comes_unreconciledGate hactuations) (fun _ _ => Blocks.gated) fun _ _ => id
  · next completedDigest existing hcompleted =>
    refine calm_raising.comes_bind fun digest s₁ h₁ => ?_
    dsimp only
    split
    · exact wp_mono (comes_of_calm h₁ comes_some_refuse) (fun _ _ => Blocks.gated) fun _ _ => id
    · refine (calm_emit (by decide)).comes_bind fun _ s₂ h₂ => ?_
      refine wp_map.mpr (comes_report fun r hr hreceipt => ⟨h₁.trans h₂, fun r' heq => ?_⟩)
      obtain rfl := Option.some.inj heq
      refine ⟨hr, fun receipt hr' => ⟨completedDigest, ?_⟩⟩
      rw [hcompleted, ← Option.some.inj (hreceipt.symm.trans hr')]

theorem comes_gates (hactuations : s.actuations = []) :
    Comes (L.gates C T request) (Gated request s) s := by
  have hstep {gate : LoopM W (Option LoopResult)} {gates : List (LoopM W (Option LoopResult))}
      {s₁ : LoopState W} (h₁ : Calm s s₁) (hgate : Comes gate (Blocks s₁) s₁)
      (hgates : ∀ s₂, Calm s s₂ → Comes (AutonomousLoop.firstBlocked gates) (Gated request s) s₂) :
      Comes (AutonomousLoop.firstBlocked (gate :: gates)) (Gated request s) s₁ := by
    refine Comes.bind hgate fun blocked s₂ hblocked => ⟨hblocked.1.kept, ?_⟩
    cases blocked with
    | none => exact hgates s₂ (h₁.trans hblocked.1)
    | some r => exact (hblocked.of_calm h₁).gated
  refine hstep (Grows.refl s) comes_authorityGate fun s₁ h₁ => ?_
  refine hstep h₁ comes_feasibilityGate fun s₂ h₂ => ?_
  refine hstep h₂ comes_resourceGate fun s₃ h₃ => ?_
  refine Comes.bind (comes_dedupeGate (h₃.actuations.trans hactuations)) fun blocked s₄ hblocked =>
    ⟨hblocked.1.kept, ?_⟩
  have hgated : Gated request s blocked s₄ := by
    refine ⟨h₃.trans hblocked.1, fun r hr => ⟨(hblocked.2 r hr).1, fun receipt hreceipt => ?_⟩⟩
    rw [← h₃.completed]
    exact (hblocked.2 r hr).2 receipt hreceipt
  cases blocked with
  | none => exact hgated
  | some r => exact hgated

end Gates

/-! ## The parts of an iteration -/

section Parts

variable {W α β : Type} {C : Canon} {T : PyText} {L : AutonomousLoop W} {request : ExecutionRequest}
  {i : L.Index} {base : List Call} {s₀ s s' : LoopState W} {h : History} {n : ℕ}

/-- Calls are made, and nothing else happens to the loop. -/
structure Asks (calls : List Call) (s s' : LoopState W) : Prop where
  calls : s'.calls = s.calls ++ calls
  events : s'.events = s.events
  actuations : s'.actuations = s.actuations
  kept : Kept s s'

theorem Heard.asks {calls : List Call} (hs : Heard base s h) (hasks : Asks calls s s') :
    Heard base s' (calls.foldl History.hear h) := hs.append hasks.calls

theorem Ledger.asks {calls : List Call} (hs : Ledger s n) (hasks : Asks calls s s') : Ledger s' n := by
  obtain ⟨hsequence, hevents, hemitted⟩ := hs
  rw [← hasks.actuations] at hsequence
  rw [← hasks.events] at hevents hemitted
  exact ⟨hsequence, hevents, hemitted⟩

theorem comes_attempt_ask {reply : Reply W α} {heard : Except Raised α → List Call}
    {post : Except Raised α → LoopState W → Prop}
    (hpost : ∀ answer s', Asks (heard answer) s s' → post answer s') :
    Comes (attempt (ask reply heard)) post s := by
  simp only [Comes, wp_attempt, ask, wp_bind, wp_get, wp_set]
  generalize (reply s.world).1 = answer
  have hasks := hpost answer { s with
    world := (reply s.world).2
    calls := s.calls ++ heard answer } ⟨rfl, rfl, rfl, rfl, rfl⟩
  cases answer with
  | ok a => exact hasks
  | error e => exact hasks

theorem comes_askOk {reply : Reply W α} {heard : α → Call} {post : α → LoopState W → Prop}
    (hpost : ∀ a s', Asks [heard a] s s' → post a s') : Comes (askOk reply heard) post s := by
  simp only [Comes, askOk, ask, wp_bind, wp_get, wp_set]
  cases hreply : (reply s.world).1 with
  | ok a => exact hpost a _ ⟨rfl, rfl, rfl, rfl, rfl⟩
  | error e => exact ⟨rfl, rfl⟩

theorem comes_currentSubjectSha {post : String → LoopState W → Prop}
    (hpost : ∀ sha s', Asks [.currentSubjectSha i sha] s s' → post sha s') :
    Comes (L.currentSubjectSha request i) post s := comes_askOk hpost

theorem comes_verifySubject {sha effectDigest : String} {post : Bool × String → LoopState W → Prop}
    (hpost : ∀ verdict s₁ s', Calm s s₁ → Asks [.verify sha effectDigest verdict.1] s₁ s' →
      post verdict s') : Comes (L.verifySubject request sha effectDigest) post s :=
  calm_subjectRef.comes_bind fun _ s₁ h₁ => comes_askOk fun verdict s' hs => hpost verdict s₁ s' h₁ hs

end Parts

end GymAct.ExecutionLoop
