import GymAct.LoopTrace

/-!
# The budget of the execution loop

Claims and executions are made by `iteration` alone, one of each at most. An iteration that goes
on has spent an attempt, or has used up the attempts on a provider and substituted another
(`iteration_spends`). So a run ends within `maxRetries + 1` iterations for each provider it may
switch to (`run_within_budget`).
-/

namespace GymAct.ExecutionLoop

open Fallible

section Quiet

variable {W α β : Type}

/-- The claims made so far. -/
def LoopState.claims (s : LoopState W) : ℕ := s.calls.countP Call.isClaim

/-- The executions made so far. -/
def LoopState.executions (s : LoopState W) : ℕ := s.calls.countP Call.isExecute

/-- No claim and no execution happens between two states. -/
def NoneMade (s s' : LoopState W) : Prop :=
  ∃ cs, s'.calls = s.calls ++ cs ∧ ∀ c ∈ cs, c.isClaim = false ∧ c.isExecute = false

theorem NoneMade.refl (s : LoopState W) : NoneMade s s := ⟨[], by simp⟩

theorem NoneMade.trans {s s' s'' : LoopState W} (h : NoneMade s s') (h' : NoneMade s' s'') :
    NoneMade s s'' := by
  obtain ⟨cs, hcs, hnone⟩ := h
  obtain ⟨cs', hcs', hnone'⟩ := h'
  refine ⟨cs ++ cs', by rw [hcs', hcs, List.append_assoc], fun c hc => ?_⟩
  exact (List.mem_append.mp hc).elim (hnone c) (hnone' c)

theorem NoneMade.counts {s s' : LoopState W} (h : NoneMade s s') :
    s'.claims = s.claims ∧ s'.executions = s.executions := by
  obtain ⟨cs, hcs, hnone⟩ := h
  have hclaims : cs.countP Call.isClaim = 0 :=
    List.countP_eq_zero.mpr fun c hc => by simp [(hnone c hc).1]
  have hexecutions : cs.countP Call.isExecute = 0 :=
    List.countP_eq_zero.mpr fun c hc => by simp [(hnone c hc).2]
  exact ⟨by simp [LoopState.claims, hcs, hclaims], by simp [LoopState.executions, hcs, hexecutions]⟩

theorem Grows.noneMade {p : Call → Bool} {s s' : LoopState W} (h : Grows p s s')
    (hp : ∀ c, p c = true → c.isClaim = false ∧ c.isExecute = false) : NoneMade s s' := by
  obtain ⟨cs, hcs, hall⟩ := h.calls
  exact ⟨cs, hcs, fun c hc => hp c (hall c hc)⟩

theorem not_made_of_ambient (c : Call) (h : c.isAmbient = true) :
    c.isClaim = false ∧ c.isExecute = false := by
  cases c <;> first | exact ⟨rfl, rfl⟩ | cases h

/-- A program that claims and executes nothing, and its value. -/
abbrev Quiet (P : α → Prop) (w : LoopM W α) : Prop := Keeps NoneMade P w

/-- A program that claims and executes nothing. -/
abbrev Idle (w : LoopM W α) : Prop := Quiet (fun _ => True) w

variable {P : α → Prop}

theorem Calmly.quiet {w : LoopM W α} (hw : Calmly P w) : Quiet P w := fun s =>
  wp_mono (hw s) (fun _ _ h => ⟨h.1, h.2.noneMade not_made_of_ambient⟩) fun _ _ h =>
    h.noneMade not_made_of_ambient

theorem Watches.idle {w : LoopM W α} (hw : Watches w) : Idle w := Calmly.quiet hw

theorem Quiet.pure {a : α} (ha : P a) : Quiet P (Pure.pure a : LoopM W α) :=
  Keeps.pure NoneMade.refl ha

theorem Quiet.throw (e : Raised) : Quiet P (MonadExcept.throw e : LoopM W α) :=
  Keeps.throw NoneMade.refl e

theorem Quiet.bind {Q : β → Prop} {w : LoopM W β} {f : β → LoopM W α} (hw : Quiet Q w)
    (hf : ∀ b, Q b → Quiet P (f b)) : Quiet P (w >>= f) :=
  Keeps.bind (fun _ _ _ h h' => h.trans h') hw hf

theorem Idle.then {w : LoopM W β} {f : β → LoopM W α} (hw : Idle w) (hf : ∀ b, Quiet P (f b)) :
    Quiet P (w >>= f) := Quiet.bind hw fun b _ => hf b

/-- Looking around before a quiet program. -/
theorem Watches.quietly {w : LoopM W β} {f : β → LoopM W α} (hw : Watches w)
    (hf : ∀ b, Quiet P (f b)) : Quiet P (w >>= f) := Idle.then hw.quiet hf

theorem Idle.map {f : β → α} {w : LoopM W β} (hw : Idle w) (hf : ∀ b, P (f b)) :
    Quiet P (f <$> w) := Keeps.map (hw.mono fun b _ => hf b)

theorem idle_pure {a : α} : Idle (Pure.pure a : LoopM W α) := Quiet.pure trivial

theorem idle_modify {f : LoopState W → LoopState W} (hf : ∀ s, (f s).calls = s.calls) :
    Idle (modify f : LoopM W Unit) := by
  intro s
  rw [wp_modify]
  exact ⟨trivial, [], by simp [hf]⟩

theorem idle_ask {reply : Reply W α} {heard : Except Raised α → List Call}
    (h : ∀ answer, ∀ call ∈ heard answer, call.isClaim = false ∧ call.isExecute = false) :
    Idle (ask reply heard) := by
  intro s
  simp only [ask, wp_bind, wp_get, wp_set]
  generalize (reply s.world).1 = answer
  have hmade : NoneMade s
      { s with world := (reply s.world).2, calls := s.calls ++ heard answer } :=
    ⟨heard answer, rfl, h answer⟩
  cases answer with
  | ok a => exact ⟨trivial, hmade⟩
  | error e => exact hmade

theorem idle_askOk {reply : Reply W α} {heard : α → Call}
    (h : ∀ a, (heard a).isClaim = false ∧ (heard a).isExecute = false) :
    Idle (askOk reply heard) := by
  refine idle_ask fun answer call hcall => ?_
  cases answer with
  | ok a => exact List.mem_singleton.mp hcall ▸ h a
  | error e => exact absurd hcall List.not_mem_nil

end Quiet

section Helpers

variable {W : Type} {C : Canon} {T : PyText} {L : AutonomousLoop W} {request : ExecutionRequest}
  {i : L.Index}

theorem idle_emit {eventType : String} {fields : EventFields} :
    Idle (L.emit request eventType fields) :=
  calm_readNow.quietly fun _ => calm_eventProvider.quietly fun _ => idle_modify fun _ => rfl

theorem idle_recordActuation {pin : ClaimPin} {effect : Payload} {witness : String} :
    Idle (L.recordActuation T request i pin effect witness) := by
  refine calm_transport.quietly fun provider => calm_raising.quietly fun consequence => ?_
  refine calm_get.quietly fun s => Idle.then (idle_modify fun s => rfl) fun _ => ?_
  exact calm_transport.quietly fun transport => idle_emit

theorem idle_currentSubjectSha : Idle (L.currentSubjectSha request i) :=
  idle_askOk fun _ => ⟨rfl, rfl⟩

theorem idle_verifySubject {sha effectDigest : String} :
    Idle (L.verifySubject request sha effectDigest) :=
  calm_subjectRef.quietly fun _ => idle_askOk fun _ => ⟨rfl, rfl⟩

theorem idle_verifyEffect {effect : Payload} : Idle (L.verifyEffect T request i effect) := by
  unfold AutonomousLoop.verifyEffect
  split
  · exact Idle.map calm_typedBlock.quiet fun _ => trivial
  · refine Idle.then idle_currentSubjectSha fun observedSha => ?_
    refine Idle.then idle_verifySubject fun verdict => ?_
    refine calm_emitVerification.quietly fun _ => ?_
    split
    · exact idle_pure
    · exact Idle.map calm_typedBlock.quiet fun _ => trivial

theorem idle_admitReceipt {receipt : ExecutionReceipt} {reason : String} :
    Idle (L.admitReceipt C request i receipt reason) := by
  have hcomplete : Idle (AutonomousLoop.complete C request receipt : LoopM W Unit) :=
    calm_raising.quietly fun digest => idle_modify fun s => rfl
  exact hcomplete.then fun _ => calm_transport.quietly fun provider =>
    Idle.then idle_emit fun _ => calm_report.quiet

theorem idle_verifyAgain {sha effectDigest : String} : ∀ {retries : ℕ} {verdict : Bool × String},
    Idle (L.verifyAgain request i sha effectDigest retries verdict)
  | 0, _ => idle_pure
  | retries + 1, verdict => by
    unfold AutonomousLoop.verifyAgain
    split
    · exact idle_pure
    · refine calm_transport.quietly fun provider => Idle.then idle_emit fun _ => ?_
      refine calm_askQuietly.quietly fun _ => Idle.then idle_verifySubject fun verdict => ?_
      exact idle_verifyAgain

theorem idle_acknowledge {pin : ClaimPin} {receipt : ExecutionReceipt} :
    Idle (L.acknowledge request i pin receipt) := by
  refine Quiet.bind (Keeps.attempt calm_askQuietly.quiet) fun answer _ => ?_
  split
  · exact idle_pure
  · refine (idle_askOk fun _ => ⟨rfl, rfl⟩).then fun durable => ?_
    exact calm_transport.quietly fun provider => idle_emit
  · exact Quiet.throw _

end Helpers

/-! ## One iteration -/

section Iteration

variable {W : Type} {C : Canon} {T : PyText} {L : AutonomousLoop W} {request : ExecutionRequest}
  {v : LoopVars L.providers.length}

/-- What an iteration comes to : the same switches and attempts, or one more switch, if there is
one left, and no attempts. -/
def Advances (request : ExecutionRequest) {n : ℕ} (v : LoopVars n) : LoopVars n ⊕ LoopResult → Prop
  | .inl v' => v'.switches = v.switches ∧ v'.attempts = v.attempts ∨
      v.switches < request.resourceConstraints.maxProviderSwitches ∧
        v'.switches = v.switches + 1 ∧ v'.attempts = 0
  | .inr _ => True

theorem advances_self : Advances request v (.inl v) := Or.inl ⟨rfl, rfl⟩

theorem advances_backoff {fault : TransportFault} :
    Quiet (Advances request v) (L.backoff request v fault) :=
  calm_transport.quietly fun _ => Idle.then idle_emit fun _ =>
    calm_askQuietly.quietly fun _ => Quiet.pure advances_self

theorem advances_substitute {fault : TransportFault} :
    Quiet (Advances request v) (L.substitute T request v fault) := by
  refine calm_nextCapableIndex.quietly fun switched => ?_
  split
  · next hswitches =>
    refine calm_transport.quietly fun provider => Idle.then idle_emit fun _ => Quiet.pure ?_
    exact Or.inr ⟨of_decide_eq_true hswitches, rfl, rfl⟩
  · exact Idle.map calm_typedBlock.quiet fun _ => trivial

theorem advances_retryOrSubstitute {fault : TransportFault} :
    Quiet (Advances request v) (L.retryOrSubstitute T request v fault) := by
  unfold AutonomousLoop.retryOrSubstitute
  split
  · exact advances_backoff
  · exact advances_substitute

theorem advances_claimFaulted {fault : TransportFault} :
    Quiet (Advances request v) (L.claimFaulted T request v fault) := by
  exact calm_transport.quietly fun provider => calm_onTransportFault.quietly fun _ =>
    advances_retryOrSubstitute.mono fun _ => id

theorem advances_executeFaulted {fault : TransportFault} :
    Quiet (Advances request v) (L.executeFaulted T request v fault) :=
  calm_transport.quietly fun _ => Idle.then idle_emit fun _ =>
    advances_retryOrSubstitute.mono fun _ => id

theorem advances_continueFresh : Quiet (Advances request v) (L.continueFresh request v) := by
  refine calm_resolveFresh.quietly fun fresh => ?_
  split
  · exact Quiet.pure advances_self
  · exact Quiet.pure trivial

theorem advances_replan {reason block : String} {broken : BrokenTerm}
    {rest : LoopVars L.providers.length → LoopM W L.Next}
    (hrest : ∀ v', v'.switches = v.switches → v'.attempts = v.attempts →
      Quiet (Advances request v) (rest v')) :
    Quiet (Advances request v) (L.replan request v reason rest block broken) := by
  refine Keeps.ite (fun _ => Idle.map calm_typedBlock.quiet fun _ => trivial) fun _ => ?_
  exact calm_transport.quietly fun _ => Idle.then idle_emit fun _ => hrest _ rfl rfl

theorem Advances.congr {v' : LoopVars L.providers.length} (hswitches : v'.switches = v.switches)
    (hattempts : v'.attempts = v.attempts) {next : L.Next} (h : Advances request v' next) :
    Advances request v next := by
  cases next with
  | inl v'' => simpa only [Advances, hswitches, hattempts] using h
  | inr _ => trivial

theorem advances_reconstruct {pin : ClaimPin} :
    Quiet (Advances request v) (L.reconstruct C T request v pin) := by
  refine (idle_askOk fun _ => ⟨rfl, rfl⟩).then fun fragment => ?_
  split
  · exact Idle.map calm_typedBlock.quiet fun _ => trivial
  · refine Idle.then idle_recordActuation fun _ => ?_
    refine Idle.then idle_currentSubjectSha fun journalSha => ?_
    split
    · exact advances_replan fun v' hswitches hattempts =>
        advances_continueFresh.mono fun _ => Advances.congr hswitches hattempts
    · refine Idle.then idle_verifyEffect fun unverified => ?_
      split
      · exact Quiet.pure trivial
      · refine calm_askQuietly.quietly fun _ => calm_buildReceipt.quietly fun receipt => ?_
        exact Idle.map idle_admitReceipt fun _ => trivial

theorem advances_crashed {pin : ClaimPin} {crash : TransportFault} {injectionPoint : String} :
    Quiet (Advances request v) (L.crashed C T request v pin crash injectionPoint) := by
  refine calm_transport.quietly fun _ => Idle.then idle_emit fun _ => ?_
  refine calm_transport.quietly fun _ => Idle.then idle_emit fun _ => ?_
  split
  · exact advances_reconstruct
  · exact calm_transport.quietly fun _ => Idle.then idle_emit fun _ =>
      calm_askQuietly.quietly fun _ => Quiet.pure advances_self

theorem advances_executed {pin : ClaimPin} {effect : Payload} :
    Quiet (Advances request v) (L.executed C T request v pin effect) := by
  refine Idle.then idle_recordActuation fun _ => ?_
  refine Idle.then idle_currentSubjectSha fun observedSha => ?_
  split
  · refine advances_replan fun v' hswitches hattempts => calm_subjectRef.quietly fun subject => ?_
    exact advances_continueFresh.mono fun _ => Advances.congr hswitches hattempts
  · refine Keeps.ite (fun _ => Idle.map calm_typedBlock.quiet fun _ => trivial) fun _ => ?_
    refine Idle.then idle_verifySubject fun first => Idle.then idle_verifyAgain fun verdict => ?_
    refine calm_emitVerification.quietly fun _ => ?_
    refine Keeps.ite (fun _ => Idle.map calm_typedBlock.quiet fun _ => trivial) fun _ => ?_
    refine Idle.then idle_currentSubjectSha fun postSha => ?_
    split
    · exact advances_replan fun v' hswitches hattempts =>
        Quiet.pure (advances_self.congr hswitches hattempts)
    · refine calm_askQuietly.quietly fun _ => calm_buildReceipt.quietly fun receipt => ?_
      exact Idle.then idle_acknowledge fun _ => Idle.map idle_admitReceipt fun _ => trivial

end Iteration

/-! ## The budget -/

section Budget

variable {W : Type} {C : Canon} {T : PyText} {L : AutonomousLoop W} {request : ExecutionRequest}
  {v : LoopVars L.providers.length}

/-- At most `c` claims and `e` executions happen between two states. -/
def Made (c e : ℕ) (s s' : LoopState W) : Prop :=
  s'.claims ≤ s.claims + c ∧ s'.executions ≤ s.executions + e

theorem NoneMade.made {c e : ℕ} {s s' : LoopState W} (h : NoneMade s s') : Made c e s s' :=
  ⟨h.counts.1 ▸ Nat.le_add_right _ _, h.counts.2 ▸ Nat.le_add_right _ _⟩

theorem NoneMade.made_of_made {c e : ℕ} {s s' s'' : LoopState W} (h : NoneMade s s')
    (h' : Made c e s' s'') : Made c e s s'' := by
  have h := h.counts
  unfold Made at *
  omega

theorem Made.of_noneMade {c e : ℕ} {s s' s'' : LoopState W} (h : Made c e s s')
    (h' : NoneMade s' s'') : Made c e s s'' := by
  have h' := h'.counts
  unfold Made at *
  omega

/-- A quiet program, and then one that makes calls. -/
theorem Quiet.then_made {α β : Type} {c e : ℕ} {Q : β → Prop} {P : α → Prop} {w : LoopM W β}
    {f : β → LoopM W α} (hw : Quiet Q w) (hf : ∀ b, Q b → Keeps (Made c e) P (f b)) :
    Keeps (Made c e) P (w >>= f) :=
  Keeps.comp (fun _ _ _ h h' => h.made_of_made h') (fun _ _ h => h.made) hw hf

theorem made_of_quiet {α : Type} {c e : ℕ} {P : α → Prop} {w : LoopM W α} (hw : Quiet P w) :
    Keeps (Made c e) P w := fun s =>
  wp_mono (hw s) (fun _ _ h => ⟨h.1, h.2.made⟩) fun _ _ h => h.made

theorem made_ask {α : Type} {reply : Reply W α} {heard : Except Raised α → List Call} {c e : ℕ}
    (hc : ∀ answer, (heard answer).countP Call.isClaim ≤ c)
    (he : ∀ answer, (heard answer).countP Call.isExecute ≤ e) :
    Keeps (Made c e) (fun _ => True) (ask reply heard) := by
  intro s
  simp only [ask, wp_bind, wp_get, wp_set]
  generalize (reply s.world).1 = answer
  have hmade : Made c e s { s with world := (reply s.world).2, calls := s.calls ++ heard answer } := by
    constructor
    · simpa [LoopState.claims] using hc answer
    · simpa [LoopState.executions] using he answer
  cases answer with
  | ok a => exact ⟨trivial, hmade⟩
  | error e => exact hmade

theorem made_claimed {pin : ClaimPin} :
    Keeps (Made 0 1) (Advances request v) (L.claimed C T request v pin) := by
  refine Quiet.then_made calm_transport.quiet fun _ _ => Quiet.then_made idle_emit fun _ _ => ?_
  refine Quiet.then_made calm_expiryGate.quiet fun expired _ => ?_
  split
  · exact made_of_quiet (Quiet.pure trivial)
  · refine Keeps.comp (fun _ _ _ h h' => h.of_noneMade h') (fun _ _ h => h)
      (Keeps.attempt (made_ask (fun _ => le_rfl) fun _ => le_rfl)) fun effect _ => ?_
    split
    · exact advances_executed
    · split
      · exact advances_crashed
      · exact advances_executeFaulted
    · exact Quiet.throw _

/-- An iteration out of attempts only blocks. -/
theorem iteration_blocks (h : request.resourceConstraints.maxRetries < v.attempts) :
    Quiet (fun next => ∃ result, next = .inr result) (L.iteration C T request v) := by
  rw [AutonomousLoop.iteration, AutonomousLoop.exhausted, if_pos h, pure_bind, if_pos rfl]
  exact Idle.map calm_typedBlock.quiet fun result => ⟨result, rfl⟩

/-- An iteration makes a claim and an execution at most. -/
theorem iteration_made :
    Keeps (Made 1 1) (Advances request { v with attempts := v.attempts + 1 })
      (L.iteration C T request v) := by
  refine Quiet.then_made calm_exhausted.quiet fun exhausted _ => ?_
  split
  · exact made_of_quiet (Idle.map calm_typedBlock.quiet fun _ => trivial)
  · refine Quiet.then_made calm_expiryGate.quiet fun expired _ => ?_
    split
    · exact made_of_quiet (Quiet.pure trivial)
    · have hclaimed : ∀ a b c : LoopState W, Made 1 0 a b → Made 0 1 b c → Made 1 1 a c := by
        unfold Made
        omega
      have hfaulted : ∀ a b : LoopState W, Made 1 0 a b → Made 1 1 a b := by
        unfold Made
        omega
      refine Keeps.comp hclaimed hfaulted
        (Keeps.attempt (made_ask (fun _ => le_rfl) fun _ => le_rfl)) fun pin _ => ?_
      split
      · exact made_claimed
      · exact made_of_quiet advances_claimFaulted
      · exact made_of_quiet (Quiet.throw _)

/-- The claims a run may make, and the executions. -/
def budget (request : ExecutionRequest) : ℕ :=
  (request.resourceConstraints.maxRetries + 1) * (request.resourceConstraints.maxProviderSwitches + 1)

/-- What is spent of the budget when an iteration begins. -/
def spent (request : ExecutionRequest) {n : ℕ} (v : LoopVars n) : ℕ :=
  v.switches * (request.resourceConstraints.maxRetries + 1) + v.attempts

/-- Where a loop that began with `c` claims and `e` executions stands. -/
structure WithinBudget (request : ExecutionRequest) (c e : ℕ) {n : ℕ} (v : LoopVars n)
    (s : LoopState W) : Prop where
  switches : v.switches ≤ request.resourceConstraints.maxProviderSwitches
  attempts : v.attempts ≤ request.resourceConstraints.maxRetries + 1
  claims : s.claims ≤ c + spent request v
  executions : s.executions ≤ e + spent request v

theorem WithinBudget.spent_le {c e n : ℕ} {v : LoopVars n} {s : LoopState W}
    (h : WithinBudget request c e v s) : spent request v ≤ budget request :=
  calc spent request v
      ≤ request.resourceConstraints.maxProviderSwitches *
          (request.resourceConstraints.maxRetries + 1) +
            (request.resourceConstraints.maxRetries + 1) :=
        Nat.add_le_add (Nat.mul_le_mul_right _ h.switches) h.attempts
    _ = budget request := (Nat.succ_mul _ _).symm.trans (Nat.mul_comm _ _)

/-- The iterations left, at most. -/
def remaining (request : ExecutionRequest) {n : ℕ} (v : LoopVars n) : ℕ :=
  (request.resourceConstraints.maxProviderSwitches - v.switches) *
      (request.resourceConstraints.maxRetries + 2) +
    (request.resourceConstraints.maxRetries + 1 - v.attempts)

theorem Advances.remaining_lt {v' : LoopVars L.providers.length}
    (hattempts : v.attempts ≤ request.resourceConstraints.maxRetries)
    (h : Advances request { v with attempts := v.attempts + 1 } (.inl v' : L.Next)) :
    remaining request v' < remaining request v := by
  unfold remaining
  rcases h with ⟨hswitches, hattempts'⟩ | ⟨hlt, hswitches, hattempts'⟩
  · simp only [hswitches, hattempts']
    omega
  · have hsub : request.resourceConstraints.maxProviderSwitches - v.switches =
        request.resourceConstraints.maxProviderSwitches - (v.switches + 1) + 1 := by
      simp only at hlt
      omega
    simp only [hswitches, hattempts', hsub, Nat.succ_mul]
    omega

/-- An iteration that goes on has spent an attempt. -/
theorem Advances.withinBudget {c e : ℕ} {s s' : LoopState W} {v' : LoopVars L.providers.length}
    (hbudget : WithinBudget request c e v s)
    (hattempts : v.attempts ≤ request.resourceConstraints.maxRetries) (hmade : Made 1 1 s s')
    (h : Advances request { v with attempts := v.attempts + 1 } (.inl v' : L.Next)) :
    WithinBudget request c e v' s' := by
  obtain ⟨hswitches, -, hclaims, hexecutions⟩ := hbudget
  obtain ⟨hmadeClaims, hmadeExecutions⟩ := hmade
  rcases h with ⟨hswitches', hattempts'⟩ | ⟨hlt, hswitches', hattempts'⟩
  · have hspent : spent request v' = spent request v + 1 := by
      simp only [spent, hswitches', hattempts']
      omega
    exact ⟨by simpa [hswitches'] using hswitches, by simpa [hattempts'] using hattempts,
      by omega, by omega⟩
  · have hspent : spent request v + 1 ≤ spent request v' := by
      simp only [spent, hswitches', hattempts', Nat.succ_mul]
      omega
    exact ⟨hswitches' ▸ hlt, by omega, by omega, by omega⟩

theorem iterate_within {c e fuel : ℕ} {s : LoopState W} (hbudget : WithinBudget request c e v s)
    (hfuel : remaining request v < fuel) :
    wp (iterate (L.iteration C T request) fuel v)
      (fun _ s' => s'.claims ≤ c + budget request ∧ s'.executions ≤ e + budget request)
      (fun _ s' => s'.claims ≤ c + budget request ∧ s'.executions ≤ e + budget request) False s := by
  refine wp_iterate (I := WithinBudget request c e) (μ := remaining request) (fun v s hv => ?_)
    hbudget (Or.inr hfuel)
  have hspent := hv.spent_le
  have hclaims := hv.claims
  have hexecutions := hv.executions
  by_cases hattempts : v.attempts ≤ request.resourceConstraints.maxRetries
  · have hspent' : spent request v + 1 ≤ budget request := by
      have hroom : WithinBudget request c e { v with attempts := v.attempts + 1 }
          { s with calls := [] } :=
        ⟨hv.switches, by simpa using hattempts, Nat.zero_le _, Nat.zero_le _⟩
      exact hroom.spent_le
    refine wp_mono (iteration_made s) (fun next s' ⟨hadvances, hmade⟩ => ?_) fun _ s' hmade => ?_
    · cases next with
      | inl v' =>
        exact ⟨hadvances.withinBudget hv hattempts hmade, Or.inr (hadvances.remaining_lt hattempts)⟩
      | inr result =>
        unfold Made at hmade
        dsimp only
        omega
    · unfold Made at hmade
      omega
  · have hblocks := iteration_blocks (C := C) (T := T) (L := L) (not_le.mp hattempts) s
    refine wp_mono hblocks (fun next s' ⟨⟨result, hresult⟩, hmade⟩ => ?_) fun _ s' hmade => ?_
    · subst hresult
      obtain ⟨hmadeClaims, hmadeExecutions⟩ := hmade.counts
      dsimp only
      omega
    · obtain ⟨hmadeClaims, hmadeExecutions⟩ := hmade.counts
      omega

/-- More iterations than a run makes. -/
def loopFuel (request : ExecutionRequest) : ℕ :=
  request.resourceConstraints.maxProviderSwitches * (request.resourceConstraints.maxRetries + 2) +
    request.resourceConstraints.maxRetries + 2

/-- What is made stays within bounds. -/
def Within (c e : ℕ) (s : LoopState W) : Prop := s.claims ≤ c ∧ s.executions ≤ e

theorem Within.of_noneMade {c e : ℕ} {s s' : LoopState W} (hs : Within c e s) (h : NoneMade s s') :
    Within c e s' := by
  have h := h.counts
  unfold Within at *
  omega

/-- A program that claims and executes nothing, before one that stays within bounds. -/
theorem Idle.then_within {α β : Type} {c e : ℕ} {s : LoopState W} {w : LoopM W β}
    {f : β → LoopM W α} (hw : Idle w) (hs : Within c e s)
    (hf : ∀ b s', NoneMade s s' → wp (f b) (fun _ => Within c e) (fun _ => Within c e) False s') :
    wp (w >>= f) (fun _ => Within c e) (fun _ => Within c e) False s := by
  rw [wp_bind]
  exact wp_mono (hw s) (fun b s' h => hf b s' h.2) fun _ s' h => hs.of_noneMade h

theorem Idle.within {α : Type} {c e : ℕ} {s : LoopState W} {w : LoopM W α} (hw : Idle w)
    (hs : Within c e s) : wp w (fun _ => Within c e) (fun _ => Within c e) False s :=
  wp_mono (hw s) (fun _ _ h => hs.of_noneMade h.2) fun _ _ h => hs.of_noneMade h

theorem runOnce_within {fuel : ℕ} (hfuel : loopFuel request ≤ fuel) (s : LoopState W) :
    wp (L.runOnce C T fuel request)
      (fun _ => Within (s.claims + budget request) (s.executions + budget request))
      (fun _ => Within (s.claims + budget request) (s.executions + budget request)) False s := by
  have hs (s' : LoopState W) (h : NoneMade s s') :
      Within (s.claims + budget request) (s.executions + budget request) s' :=
    Within.of_noneMade ⟨Nat.le_add_right _ _, Nat.le_add_right _ _⟩ h
  refine (idle_modify fun _ => rfl).then_within (hs s (.refl s)) fun _ s₁ h₁ => ?_
  refine calm_gates.idle.then_within (hs s₁ h₁) fun blocked s₂ h₂ => ?_
  have h₂ := h₁.trans h₂
  split
  · exact idle_pure.within (hs s₂ h₂)
  · refine idle_emit.then_within (hs s₂ h₂) fun _ s₃ h₃ => ?_
    have h₃ := h₂.trans h₃
    refine calm_resolveFresh.idle.then_within (hs s₃ h₃) fun fresh s₄ h₄ => ?_
    have h₄ := h₃.trans h₄
    split
    · exact idle_pure.within (hs s₄ h₄)
    · refine calm_nextCapableIndex.idle.then_within (hs s₄ h₄) fun index s₅ h₅ => ?_
      have h₅ := h₄.trans h₅
      split
      · exact calm_typedBlock.idle.within (hs s₅ h₅)
      · refine iterate_within ⟨Nat.zero_le _, Nat.zero_le _, ?_, ?_⟩ ?_
        · exact Nat.le_add_right_of_le (le_of_eq h₅.counts.1)
        · exact Nat.le_add_right_of_le (le_of_eq h₅.counts.2)
        · refine lt_of_lt_of_le ?_ hfuel
          simp [remaining, loopFuel]
          omega

/-- A run ends, with a result or an error, and makes as many claims and as many executions as its
budget at most. -/
theorem run_within_budget {W : Type} (C : Canon) (T : PyText) (L : AutonomousLoop W)
    (request : ExecutionRequest) (s : LoopState W) (fuel : ℕ) (hfuel : loopFuel request ≤ fuel) :
    ∃ answer s', L.run C T fuel request s = some (answer, s') ∧
      s'.claims ≤ s.claims + budget request ∧ s'.executions ≤ s.executions + budget request := by
  have hwithin : wp (L.run C T fuel request)
      (fun _ => Within (s.claims + budget request) (s.executions + budget request))
      (fun _ => Within (s.claims + budget request) (s.executions + budget request)) False s := by
    rw [AutonomousLoop.run, wp_bind]
    refine wp_mono (runOnce_within hfuel s) (fun result s' hs' => ?_) fun _ _ => id
    split
    · refine calm_raising.idle.then_within hs' fun digest s₂ h₂ => ?_
      refine Idle.then_within (idle_modify ?_) (hs'.of_noneMade h₂) fun _ s₃ h₃ => ?_
      · exact fun _ => rfl
      · exact idle_pure.within (hs'.of_noneMade (h₂.trans h₃))
    · exact idle_pure.within hs'
  unfold wp at hwithin
  cases hrun : L.run C T fuel request s with
  | none =>
    rw [hrun] at hwithin
    exact hwithin.elim
  | some answer =>
    rw [hrun] at hwithin
    obtain ⟨answer | answer, s'⟩ := answer
    · exact ⟨_, s', rfl, hwithin⟩
    · exact ⟨_, s', rfl, hwithin⟩

end Budget

/-! ## A worker that always crashes -/

/-- The texts of values that are texts, ASCII upper case. -/
def PyText.sample : PyText where
  str := fun v => match v with
    | .str s => s
    | v => v.render.toOption.getD ""
  dict := fun v => match v with
    | .dict items => .ok items
    | _ => .error ⟨"TypeError", "not iterable"⟩
  upper := String.toUpper
  str_str := fun _ => rfl
  dict_dict := fun _ => rfl

def sampleSubject : SubjectRef := ⟨"repo", "0123456", by decide⟩

def sampleRequest : ExecutionRequest where
  workOrder := "order"
  capabilityRequirements := ["edit"]
  subject := sampleSubject
  authority := { ceiling := "DO", grant := "grant", actor := "actor" }
  evidenceRequirements := ["verifier"]
  idempotencyKey := "order"

/-- A provider that claims and whose worker crashes before it actuates. -/
def crashingProvider : ExecutionProvider Unit where
  capabilities := fun w => (.ok ["edit"], w)
  transport := fun w => (.ok "local", w)
  availability := fun w => (.ok true, w)
  authorityCeiling := fun w => (.ok "DO", w)
  receiptProtocol := fun w => (.ok "journal", w)
  currentSubjectSha := fun _ w => (.ok "0123456", w)
  resolveSubject := fun _ w => (.ok sampleSubject, w)
  claim := fun _ w => (.ok ⟨"execution", "0123456"⟩, w)
  execute := fun _ _ w =>
    (.error (.fault { kind := "worker_sigkill", injectionPoint := some "before" }), w)
  fetchReceipt := fun _ w => (.ok none, w)
  ack := fun _ w => (.ok (), w)

def crashingLoop : AutonomousLoop Unit where
  providers := [crashingProvider]
  verify := fun _ _ _ w => (.ok (true, "verified"), w)
  isValid := fun _ w => (.ok true, w)
  diskMbAvailable := fun w => (.ok 1024, w)
  cpuCoresAvailable := fun w => (.ok (.finite 4), w)
  now := fun w => (.ok 0, w)
  advance := fun _ w => (.ok (), w)
  nonempty := by decide

theorem crashing_within_budget : loopFuel sampleRequest ≤ 15 ∧
    ∃ answer s', crashingLoop.run .reference .sample 15 sampleRequest { world := () } =
      some (answer, s') ∧ s'.claims ≤ 0 + budget sampleRequest ∧
        s'.executions ≤ 0 + budget sampleRequest :=
  ⟨by decide, run_within_budget .reference .sample crashingLoop sampleRequest { world := () } 15
    (by decide)⟩

end GymAct.ExecutionLoop
