import GymAct.Harness
import Mathlib.Data.List.Induction

/-!
# Chains of tasks

`ChainSession` of `envharness.py` : tasks as the legs of one chain, each played in a session
of its own, and each verified before the next begins.

`advance` records the verification of a leg before it tears the leg down. A leg whose
teardown fails stays the current one with its verification recorded, and so does the last
leg; another `advance` then records it again, and `complete` compares the number of
recorded verifications with the number of legs. `chain_counts_iff` : along a run everything
is counted as it should be exactly when no `advance` verifies a leg that is recorded.
-/

namespace GymAct

open Coop Coop.Prog

/-- What a chain is constructed with. -/
structure ChainSession where
  tasks : List TaskSpec
  authorityRef : Option String := none
  principal : Option String := none
  /-- `CHAIN_REQUIRES_AT_LEAST_ONE_TASK`. -/
  tasks_ne : tasks ≠ []

/-- What a chain changes; the current session is there with its own state. -/
structure ChainState where
  legIndex : ℕ := 0
  current : Option (HarnessSession × SessionState) := none
  verifications : List VerificationResult := []

@[reducible] def chainSig : Sig := harnessSig.over ChainState

/-- A program of a chain. -/
abbrev ChainM (α : Type) := Prog chainSig α

structure ChainAdvanceResult where
  accepted : Bool
  standing : Standing
  legIndex : ℕ
  verification : VerificationResult
  complete : Bool
  nextReset : Option HarnessResetResult := none
  reason : Option String := none

namespace ChainSession

variable (C : Canon) (chain : ChainSession)

/-- `complete`. -/
def complete (s : ChainState) : Bool :=
  s.verifications.length = chain.tasks.length && s.verifications.all VerificationResult.passed

/-- The state of the current session. -/
def memory (s : ChainState) : SessionState := (s.current.map Prod.snd).getD {}

def setMemory (m : SessionState) (s : ChainState) : ChainState :=
  { s with current := s.current.map fun c => (c.1, m) }

/-- An operation of the current session. -/
def onCurrent {α : Type} (p : HarnessSession → HarnessM α) : ChainM α := do
  let s ← getState
  match s.current with
  | none => raise (runtimeError "CHAIN_NOT_RESET")
  | some (session, _) => (p session).within memory setMemory

/-- The session of the current leg is constructed. -/
def enter : ChainM Unit := do
  let s ← getState
  match chain.tasks[s.legIndex]? with
  | none => raise (.provider ⟨"IndexError", "tuple index out of range"⟩)
  | some task =>
    modify fun s => { s with
      current := some (⟨task, chain.authorityRef, chain.principal⟩, {}) }

/-- The session of an earlier run is torn down. -/
def priorTeardown : ChainM Unit := do
  let s ← getState
  if s.current.isSome && (memory s).episodeId.isSome then
    let teardown ← onCurrent HarnessSession.teardown
    if teardown.standing.good = false then
      raise (runtimeError ("CHAIN_PRIOR_TEARDOWN_" ++ teardown.standing.value))

/-- `reset` once nothing is left to tear down. -/
def begin : ChainM HarnessResetResult := do
  modify fun s => { s with legIndex := 0, verifications := [] }
  enter chain
  onCurrent (HarnessSession.reset C)

/-- `reset`. -/
def reset : ChainM HarnessResetResult := do
  priorTeardown
  begin C chain

/-- `step`. -/
def step (action : HarnessAction) : ChainM HarnessStepResult :=
  onCurrent fun session => session.step C action

/-- `observe`. -/
def observe : ChainM Payload := onCurrent HarnessSession.observe

/-- The goal of the current session is verified. -/
def verifyGoal : ChainM VerificationResult := onCurrent fun session => session.verify

/-- `teardown.reason or "CHAIN_LEG_TEARDOWN_FAILED"`. -/
def teardownFailure (receipt : Receipt) : String :=
  match receipt.reason with
  | none | some "" => "CHAIN_LEG_TEARDOWN_FAILED"
  | some reason => reason

/-- The leg is verified and recorded, and it is not the last one. -/
def leave (finished : ℕ) (verification : VerificationResult) : ChainM ChainAdvanceResult := do
  let teardown ← onCurrent HarnessSession.teardown
  if teardown.standing.good = false then
    pure ⟨false, teardown.standing, finished, verification, false, none,
      some (teardownFailure teardown)⟩
  else
    modify fun s => { s with legIndex := s.legIndex + 1 }
    enter chain
    let nextReset ← onCurrent (HarnessSession.reset C)
    pure ⟨nextReset.accepted, nextReset.standing, finished, verification, false, some nextReset,
      nextReset.reason⟩

/-- `advance` once there is a verification. -/
def settleLeg (verification : VerificationResult) : ChainM ChainAdvanceResult := do
  let s ← getState
  if verification.passed = false then
    pure ⟨false, .refused, s.legIndex, verification, false, none, some "CHAIN_LEG_NOT_VERIFIED"⟩
  else
    modify fun s => { s with verifications := s.verifications ++ [verification] }
    if s.legIndex = chain.tasks.length - 1 then
      pure ⟨true, .alive, s.legIndex, verification, true, none, none⟩
    else leave C chain s.legIndex verification

/-- `advance`. -/
def advance : ChainM ChainAdvanceResult := do
  let verification ← verifyGoal
  settleLeg C chain verification

end ChainSession

/-! ## Runs -/

/-- A call of a public operation. -/
inductive ChainOp
  | reset
  | step (action : HarnessAction)
  | observe
  | advance

/-- The program of an operation. -/
def ChainOp.program (C : Canon) (chain : ChainSession) : ChainOp → ChainM Unit
  | .reset => (fun _ => ()) <$> chain.reset C
  | .step action => (fun _ => ()) <$> ChainSession.step C action
  | .observe => (fun _ => ()) <$> ChainSession.observe
  | .advance => (fun _ => ()) <$> chain.advance C

/-- A run so far : the chain, the calls it made of the runtime, and the legs whose goal an
`advance` has verified while they were the current one, since the chain last began. -/
structure ChainRun where
  state : ChainState := {}
  log : Log chainSig := []
  verified : List ℕ := []

namespace ChainRun

variable (C : Canon) (chain : ChainSession) (ω : Oracle chainSig)

/-- An `advance` would find the goal of the current leg verified. -/
def goalHolds (r : ChainRun) : Bool :=
  match (exec ω ChainSession.verifyGoal r.state r.log).1 with
  | .ok verification => verification.passed
  | .error _ => false

/-- A `reset` would begin the chain again : what is to be torn down can be. -/
def restarts (r : ChainRun) : Bool := (exec ω ChainSession.priorTeardown r.state r.log).1.toBool

/-- The legs verified once an operation is over. -/
def note (r : ChainRun) : ChainOp → List ℕ
  | .reset => if r.restarts ω then [] else r.verified
  | .advance => if r.goalHolds ω then r.verified ++ [r.state.legIndex] else r.verified
  | _ => r.verified

/-- One operation, whatever it returns or raises. -/
def step (r : ChainRun) (op : ChainOp) : ChainRun where
  state := (exec ω (op.program C chain) r.state r.log).2.1
  log := (exec ω (op.program C chain) r.state r.log).2.2
  verified := r.note ω op

/-- A run of operations on a new chain. -/
def run (ops : List ChainOp) : ChainRun := ops.foldl (step C chain ω) {}

theorem run_snoc (ops : List ChainOp) (op : ChainOp) :
    run C chain ω (ops ++ [op]) = (run C chain ω ops).step C chain ω op := by
  simp [run]

end ChainRun

/-! ## What an operation changes -/

/-- The chain is where it was, with the session it had. -/
structure SameLeg (s s' : ChainState) : Prop where
  legIndex : s'.legIndex = s.legIndex
  verifications : s'.verifications = s.verifications
  session : s'.current.map Prod.fst = s.current.map Prod.fst

namespace SameLeg

theorem refl (s : ChainState) : SameLeg s s := ⟨rfl, rfl, rfl⟩

theorem trans {s s' s'' : ChainState} (h : SameLeg s s') (h' : SameLeg s' s'') : SameLeg s s'' :=
  ⟨h'.1.trans h.1, h'.2.trans h.2, h'.3.trans h.3⟩

theorem setMemory {s s' : ChainState} (m : SessionState) (h : SameLeg s s') :
    SameLeg s (ChainSession.setMemory m s') :=
  ⟨h.1, h.2, by rw [← h.3]; cases hs : s'.current <;> simp [ChainSession.setMemory, hs]⟩

end SameLeg

section Frames

variable {α : Type} {s : ChainState} {log : Log chainSig}

/-- Any answer of the runtime. -/
abbrev anything (c : RuntimeCall) (_ : Except Exc c.Value) : Prop := True

/-- What the current session does leaves the chain where it is. -/
theorem post_onCurrent (p : HarnessSession → HarnessM α) {s₀ : ChainState} (h : SameLeg s₀ s) :
    post (S := chainSig) anything (fun _ s' _ => SameLeg s₀ s') (ChainSession.onCurrent p) s log := by
  simp only [ChainSession.onCurrent, post_bind, post_getState, post_onOk]
  split
  · exact h
  · refine post_within (S := harnessSig) (R := SameLeg) ?_ _ h
    exact fun t t' m ht => ht.setMemory m

/-- The session of the leg is the one of its task. -/
def AtLeg (chain : ChainSession) (s : ChainState) : Prop :=
  ∀ session memory, s.current = some (session, memory) → chain.tasks[s.legIndex]? = some session.task

theorem AtLeg.of_sameLeg {chain : ChainSession} {s s' : ChainState} (h : AtLeg chain s)
    (hs : SameLeg s s') : AtLeg chain s' := by
  intro session memory hcurrent
  have hsession := hs.session
  rw [hcurrent, Option.map_some] at hsession
  obtain ⟨⟨_, m⟩, hc, rfl⟩ := Option.map_eq_some_iff.mp hsession.symm
  rw [hs.legIndex]
  exact h _ m hc

theorem AtLeg.congr {chain : ChainSession} {s s' : ChainState} (hleg : s'.legIndex = s.legIndex)
    (hcurrent : s'.current = s.current) (h : AtLeg chain s) : AtLeg chain s' := by
  intro session memory hs
  rw [hleg]
  exact h session memory (hcurrent ▸ hs)

/-- The session of the current leg is there once it is constructed. -/
theorem post_enter {chain : ChainSession} (h : s.legIndex < chain.tasks.length) :
    post (S := chainSig) anything (fun _ s' _ => s'.legIndex = s.legIndex ∧
      s'.verifications = s.verifications ∧ AtLeg chain s') (ChainSession.enter chain) s log := by
  have htask := List.getElem?_eq_getElem h
  simp only [ChainSession.enter, post_bind, post_getState, post_onOk, htask, post_modify]
  refine ⟨trivial, trivial, fun session memory hcurrent => ?_⟩
  obtain ⟨rfl, -⟩ := Prod.mk.inj (Option.some.inj hcurrent)
  exact htask

/-- What `advance` has done once a goal held. -/
structure Recorded (chain : ChainSession) (v : VerificationResult) (s s' : ChainState) : Prop where
  verifications : s'.verifications = s.verifications ++ [v]
  legIndex : s'.legIndex = s.legIndex ∨ s'.legIndex = s.legIndex + 1
  legIndex_lt : s'.legIndex < chain.tasks.length
  own : AtLeg chain s'

theorem Recorded.of_sameLeg {chain : ChainSession} {v : VerificationResult} {s s' s'' : ChainState}
    (h : Recorded chain v s s') (hs : SameLeg s' s'') : Recorded chain v s s'' :=
  ⟨hs.verifications.trans h.verifications, hs.legIndex.symm ▸ h.legIndex,
    hs.legIndex.symm ▸ h.legIndex_lt, h.own.of_sameLeg hs⟩

/-- The leg is left, or its teardown failed. -/
theorem post_leave {C : Canon} {chain : ChainSession} {v verification : VerificationResult}
    {finished : ℕ} {s₀ : ChainState} (h : Recorded chain v s₀ s) (hleg : s.legIndex = s₀.legIndex)
    (hnext : s.legIndex + 1 < chain.tasks.length) :
    post (S := chainSig) anything (fun _ s' _ => Recorded chain v s₀ s')
      (ChainSession.leave C chain finished verification) s log := by
  rw [ChainSession.leave, post_bind]
  refine post_mono (fun r s₁ log₁ hs => ?_) _ (post_onCurrent HarnessSession.teardown (.refl s))
  have hstay : Recorded chain v s₀ s₁ := h.of_sameLeg hs
  rcases r with e | teardown
  · exact hstay
  rw [post_onOk]
  split
  · exact hstay
  · simp only [post_bind, post_modify, post_onOk]
    refine post_mono (fun r s₂ log₂ hentered => ?_) _
      (post_enter (hs.legIndex ▸ hnext : s₁.legIndex + 1 < chain.tasks.length))
    obtain ⟨hleg₂, hverifications, hown⟩ := hentered
    have hmoved : Recorded chain v s₀ s₂ :=
      ⟨hverifications.trans hstay.verifications,
        Or.inr (hleg₂.trans (by rw [hs.legIndex, hleg])), by
          rw [hleg₂]
          exact hs.legIndex ▸ hnext, hown⟩
    rcases r with e | _
    · exact hmoved
    rw [post_onOk, post_bind]
    refine post_mono (fun r s₃ log₃ hs₃ => ?_) _ (post_onCurrent (HarnessSession.reset C) (.refl s₂))
    have := hmoved.of_sameLeg hs₃
    rcases r with e | _ <;> exact this

end Frames

/-! ## Runs count each leg once -/

section Steps

variable {C : Canon} {chain : ChainSession} {ω : Oracle chainSig}

/-- A run of a program that any answers leave in a state of `P`. -/
theorem state_of_post {α : Type} {P : ChainState → Prop} {p : ChainM α} {s : ChainState}
    {log : Log chainSig}
    (h : post (S := chainSig) anything (fun _ s' _ => P s') p s log) : P (exec ω p s log).2.1 :=
  exec_of_post (S := chainSig) (Q := fun _ s' _ => P s') (fun _ _ => trivial) p h

theorem post_settleLeg {v : VerificationResult} {s : ChainState} {log : Log chainSig}
    (hpassed : v.passed = true) (hlt : s.legIndex < chain.tasks.length) (hown : AtLeg chain s) :
    post (S := chainSig) anything (fun _ s' _ => Recorded chain v s s')
      (ChainSession.settleLeg C chain v) s log := by
  have hrecorded : Recorded chain v s { s with verifications := s.verifications ++ [v] } :=
    ⟨rfl, Or.inl rfl, hlt, hown.congr rfl rfl⟩
  simp only [ChainSession.settleLeg, post_bind, post_getState, post_onOk, hpassed,
    Bool.true_eq_false, if_false, post_modify]
  split
  · exact hrecorded
  · exact post_leave hrecorded rfl (by change s.legIndex + 1 < _; omega)

/-- The current leg is recorded if its goal holds; otherwise the chain stays as it is. -/
theorem advance_state (C : Canon) (ω : Oracle chainSig) (r : ChainRun)
    (hlt : r.state.legIndex < chain.tasks.length) (hown : AtLeg chain r.state) :
    (r.goalHolds ω = false ∧ SameLeg r.state (r.step C chain ω .advance).state) ∨
      (r.goalHolds ω = true ∧ ∃ v : VerificationResult, v.passed = true ∧
        Recorded chain v r.state (r.step C chain ω .advance).state) := by
  have hverify : SameLeg r.state (exec ω ChainSession.verifyGoal r.state r.log).2.1 :=
    state_of_post (post_onCurrent _ (.refl r.state))
  have hstep : (r.step C chain ω .advance).state = (exec ω
      (onOk (ChainSession.settleLeg C chain) (exec ω ChainSession.verifyGoal r.state r.log).1)
      (exec ω ChainSession.verifyGoal r.state r.log).2.1
      (exec ω ChainSession.verifyGoal r.state r.log).2.2).2.1 := by
    simp only [ChainRun.step, ChainOp.program, exec_map, ChainSession.advance, exec_bind]
  rw [hstep, ChainRun.goalHolds]
  generalize exec ω ChainSession.verifyGoal r.state r.log = run at hverify ⊢
  obtain ⟨e | v, s', log'⟩ := run
  · exact Or.inl ⟨rfl, hverify⟩
  · rcases hpassed : v.passed with _ | _
    · refine Or.inl ⟨hpassed, ?_⟩
      refine hverify.trans (state_of_post (p := ChainSession.settleLeg C chain v) ?_)
      simp [ChainSession.settleLeg, hpassed, SameLeg.refl]
    · refine Or.inr ⟨hpassed, v, hpassed, ?_⟩
      have hrecorded : Recorded chain v s' (exec ω (ChainSession.settleLeg C chain v) s' log').2.1 :=
        state_of_post (post_settleLeg hpassed (hverify.legIndex ▸ hlt) (hown.of_sameLeg hverify))
      exact ⟨hverify.verifications ▸ hrecorded.verifications,
        hverify.legIndex ▸ hrecorded.legIndex, hrecorded.legIndex_lt, hrecorded.own⟩

/-- A `reset` begins the chain again, or leaves it as it is. -/
theorem reset_state (C : Canon) (chain : ChainSession) (ω : Oracle chainSig) (r : ChainRun) :
    (r.restarts ω = false ∧ SameLeg r.state (r.step C chain ω .reset).state) ∨
      (r.restarts ω = true ∧ (r.step C chain ω .reset).state.legIndex = 0 ∧
        (r.step C chain ω .reset).state.verifications = [] ∧
        AtLeg chain (r.step C chain ω .reset).state) := by
  have hprior : SameLeg r.state (exec ω ChainSession.priorTeardown r.state r.log).2.1 := by
    refine state_of_post ?_
    simp only [ChainSession.priorTeardown, post_bind, post_getState, post_onOk]
    split
    · rw [post_bind]
      refine post_mono (fun x s' log' hs => ?_) _ (post_onCurrent HarnessSession.teardown (.refl _))
      rcases x with e | receipt
      · exact hs
      · rw [post_onOk]
        split <;> exact hs
    · exact .refl _
  have hstep : (r.step C chain ω .reset).state = (exec ω
      (onOk (fun _ => ChainSession.begin C chain)
        (exec ω ChainSession.priorTeardown r.state r.log).1)
      (exec ω ChainSession.priorTeardown r.state r.log).2.1
      (exec ω ChainSession.priorTeardown r.state r.log).2.2).2.1 := by
    simp only [ChainRun.step, ChainOp.program, exec_map, ChainSession.reset, exec_bind]
  rw [hstep, ChainRun.restarts]
  generalize exec ω ChainSession.priorTeardown r.state r.log = run at hprior ⊢
  obtain ⟨e | _, s', log'⟩ := run
  · exact Or.inl ⟨rfl, hprior⟩
  · refine Or.inr ⟨rfl, state_of_post (P := fun s => s.legIndex = 0 ∧ s.verifications = [] ∧
      AtLeg chain s) ?_⟩
    have hpos : 0 < chain.tasks.length := List.length_pos_of_ne_nil chain.tasks_ne
    simp only [onOk, ChainSession.begin, post_bind, post_modify]
    refine post_mono (fun x s₁ log₁ hentered => ?_) _ (post_enter hpos)
    obtain ⟨hleg, hverifications, hown⟩ := hentered
    rcases x with e | _
    · exact ⟨hleg, hverifications, hown⟩
    · refine post_mono (fun x s₂ log₂ hs => ?_) _
        (post_onCurrent (HarnessSession.reset C) (.refl s₁))
      exact ⟨hs.legIndex.trans hleg, hs.verifications.trans hverifications, hown.of_sameLeg hs⟩

/-- A run counts what it should : each verified leg once, complete when all legs are, in
order, and the current session plays the task of its leg. -/
structure Truthful (chain : ChainSession) (r : ChainRun) : Prop where
  complete_iff : chain.complete r.state = true ↔
    (List.range chain.tasks.length).Sublist r.verified
  once : r.verified.Nodup
  counted : r.state.verifications.length = r.verified.length
  own : AtLeg chain r.state

/-- Where a chain stands that never verified a recorded leg. -/
structure InOrder (chain : ChainSession) (r : ChainRun) : Prop where
  legIndex_lt : r.state.legIndex < chain.tasks.length
  passed : ∀ v ∈ r.state.verifications, v.passed = true
  own : AtLeg chain r.state
  verified : r.verified = List.range r.state.verifications.length
  position : r.state.verifications.length = r.state.legIndex ∨
    r.state.verifications.length = r.state.legIndex + 1

theorem InOrder.start : InOrder chain {} where
  legIndex_lt := List.length_pos_of_ne_nil chain.tasks_ne
  passed := by simp
  own := fun session memory h => by simp at h
  verified := rfl
  position := Or.inl rfl

theorem InOrder.complete_iff {r : ChainRun} (h : InOrder chain r) :
    chain.complete r.state = true ↔ r.state.verifications.length = chain.tasks.length := by
  have hall : r.state.verifications.all VerificationResult.passed = true :=
    List.all_eq_true.mpr h.passed
  simp [ChainSession.complete, hall]

theorem InOrder.truthful {r : ChainRun} (h : InOrder chain r) : Truthful chain r where
  complete_iff := by
    have hle := h.legIndex_lt
    have hposition := h.position
    rw [h.complete_iff, h.verified]
    constructor
    · exact fun heq => heq ▸ List.Sublist.refl _
    · intro hsub
      have := hsub.length_le
      simp only [List.length_range] at this
      omega
  once := h.verified ▸ List.nodup_range
  counted := by rw [h.verified, List.length_range]
  own := h.own

theorem InOrder.of_sameLeg {r : ChainRun} {s : ChainState} (log : Log chainSig)
    (h : InOrder chain r) (hs : SameLeg r.state s) : InOrder chain ⟨s, log, r.verified⟩ where
  legIndex_lt := hs.legIndex.symm ▸ h.legIndex_lt
  passed := hs.verifications.symm ▸ h.passed
  own := h.own.of_sameLeg hs
  verified := hs.verifications.symm ▸ h.verified
  position := by
    rw [hs.verifications, hs.legIndex]
    exact h.position

/-- The operations that only concern the current session. -/
theorem inner_state (r : ChainRun) {op : ChainOp} (hreset : op ≠ .reset) (hadvance : op ≠ .advance) :
    SameLeg r.state (r.step C chain ω op).state := by
  cases op with
  | reset => exact absurd rfl hreset
  | advance => exact absurd rfl hadvance
  | step action =>
    simp only [ChainRun.step, ChainOp.program, exec_map]
    exact state_of_post (post_onCurrent _ (.refl _))
  | observe =>
    simp only [ChainRun.step, ChainOp.program, exec_map]
    exact state_of_post (post_onCurrent _ (.refl _))

/-- An operation keeps the order unless it verifies a recorded leg. -/
theorem InOrder.step {r : ChainRun} (h : InOrder chain r) {op : ChainOp}
    (hop : op = .advance → r.goalHolds ω = true → r.state.legIndex ∉ r.verified) :
    InOrder chain (r.step C chain ω op) := by
  cases op with
  | step action => exact h.of_sameLeg _ (inner_state r nofun nofun)
  | observe => exact h.of_sameLeg _ (inner_state r nofun nofun)
  | reset =>
    rcases reset_state C chain ω r with
      ⟨hrefused, hs⟩ | ⟨hrestarts, hleg, hverifications, hown⟩
    · have hnote : (r.step C chain ω .reset).verified = r.verified := by
        simp [ChainRun.step, ChainRun.note, hrefused]
      have := h.of_sameLeg (r.step C chain ω .reset).log hs
      rwa [← hnote] at this
    · have hnote : (r.step C chain ω .reset).verified = [] := by
        simp [ChainRun.step, ChainRun.note, hrestarts]
      refine ⟨hleg ▸ List.length_pos_of_ne_nil chain.tasks_ne, ?_, hown, ?_, ?_⟩
      · simp [hverifications]
      · rw [hnote, hverifications]
        rfl
      · simp [hverifications, hleg]
  | advance =>
    rcases advance_state C ω r h.legIndex_lt h.own with
      ⟨hfails, hs⟩ | ⟨hholds, v, hpassed, hrecorded⟩
    · have hnote : (r.step C chain ω .advance).verified = r.verified := by
        simp [ChainRun.step, ChainRun.note, hfails]
      have := h.of_sameLeg (r.step C chain ω .advance).log hs
      rwa [← hnote] at this
    · have hnote : (r.step C chain ω .advance).verified = r.verified ++ [r.state.legIndex] := by
        simp [ChainRun.step, ChainRun.note, hholds]
      have hfresh := hop rfl hholds
      rw [h.verified, List.mem_range] at hfresh
      have hlength : r.state.verifications.length = r.state.legIndex := by
        have := h.position
        omega
      refine ⟨hrecorded.legIndex_lt, ?_, hrecorded.own, ?_, ?_⟩
      · rw [hrecorded.verifications]
        intro w hw
        rcases List.mem_append.mp hw with hw | hw
        · exact h.passed w hw
        · exact List.mem_singleton.mp hw ▸ hpassed
      · rw [hnote, hrecorded.verifications, h.verified, List.length_append, List.length_singleton,
          List.range_succ, hlength]
      · rw [hrecorded.verifications, List.length_append, List.length_singleton, hlength]
        have := hrecorded.legIndex
        omega

/-- Everything along a run is counted as it should be, and a complete chain stays complete
until a `reset` begins it again. -/
structure CountsRight (C : Canon) (chain : ChainSession) (ω : Oracle chainSig) (ops : List ChainOp) :
    Prop where
  truthful : ∀ pre post, ops = pre ++ post → Truthful chain (ChainRun.run C chain ω pre)
  stays : ∀ pre op post, ops = pre ++ op :: post →
    chain.complete (ChainRun.run C chain ω pre).state = true →
      (op = .reset ∧ (ChainRun.run C chain ω pre).restarts ω = true) ∨
        chain.complete (ChainRun.run C chain ω (pre ++ [op])).state = true

/-- No `advance` of the run finds the goal of a leg verified that is recorded already. -/
def NeverAgain (C : Canon) (chain : ChainSession) (ω : Oracle chainSig) (ops : List ChainOp) : Prop :=
  ∀ pre post, ops = pre ++ .advance :: post → (ChainRun.run C chain ω pre).goalHolds ω = true →
    (ChainRun.run C chain ω pre).state.legIndex ∉ (ChainRun.run C chain ω pre).verified

theorem NeverAgain.inOrder {ops : List ChainOp} (h : NeverAgain C chain ω ops) :
    ∀ pre post, ops = pre ++ post → InOrder chain (ChainRun.run C chain ω pre) := by
  intro pre
  induction pre using List.reverseRecOn with
  | nil => exact fun _ _ => InOrder.start
  | append_singleton pre op ih =>
    intro post heq
    have heq' : ops = pre ++ op :: post := by rw [heq, List.append_assoc, List.singleton_append]
    rw [ChainRun.run_snoc]
    exact (ih (op :: post) heq').step fun hop => h pre post (hop ▸ heq')

/-- A chain is complete exactly when its legs are, along a run in which no `advance` verifies a
leg that is recorded already, and along no other run. -/
theorem chain_counts_iff (ops : List ChainOp) :
    CountsRight C chain ω ops ↔ NeverAgain C chain ω ops := by
  constructor
  · intro h pre post heq hholds hagain
    have honce := (h.truthful (pre ++ [.advance]) post (by rw [heq]; simp)).once
    have hnote : (ChainRun.run C chain ω (pre ++ [.advance])).verified =
        (ChainRun.run C chain ω pre).verified ++ [(ChainRun.run C chain ω pre).state.legIndex] := by
      rw [ChainRun.run_snoc]
      simp [ChainRun.step, ChainRun.note, hholds]
    rw [hnote, List.nodup_append'] at honce
    exact honce.2.2 hagain (List.mem_singleton.mpr rfl)
  · intro h
    refine ⟨fun pre post heq => (h.inOrder pre post heq).truthful, fun pre op post heq hcomplete => ?_⟩
    have hbefore := h.inOrder pre (op :: post) heq
    rw [ChainRun.run_snoc]
    have hsame (hs : SameLeg (ChainRun.run C chain ω pre).state
        ((ChainRun.run C chain ω pre).step C chain ω op).state) :
        chain.complete ((ChainRun.run C chain ω pre).step C chain ω op).state = true := by
      rw [ChainSession.complete, hs.verifications]
      exact hcomplete
    cases op with
    | step action => exact Or.inr (hsame (inner_state _ nofun nofun))
    | observe => exact Or.inr (hsame (inner_state _ nofun nofun))
    | reset =>
      rcases reset_state C chain ω (ChainRun.run C chain ω pre) with
        ⟨-, hs⟩ | ⟨hrestarts, -⟩
      · exact Or.inr (hsame hs)
      · exact Or.inl ⟨rfl, hrestarts⟩
    | advance =>
      rcases advance_state C ω (ChainRun.run C chain ω pre) hbefore.legIndex_lt
        hbefore.own with ⟨-, hs⟩ | ⟨hholds, -⟩
      · exact Or.inr (hsame hs)
      · refine absurd ?_ (h pre post heq hholds)
        rw [hbefore.verified, List.mem_range, hbefore.complete_iff.mp hcomplete]
        exact hbefore.legIndex_lt

end Steps

/-! ## A leg that is recorded twice -/

/-- A task without stages, contracts or a goal. -/
def bareTask : TaskSpec := ⟨"memory", none, [], [], ⟨[], [], "h"⟩, memory_ne⟩

def twoLegs : ChainSession := ⟨[bareTask, bareTask], none, none, by decide⟩

/-- A runtime that does everything, but for the first teardown it is asked for. -/
def reluctant : Oracle chainSig := fun log call =>
  match call with
  | .materialize _ => .ok
    { accepted := true, standing := .alive, episode := some ⟨"e", "memory", "env", none, .alive⟩,
      receipt := { episodeId := "e", operation := .materialize, standing := .alive } }
  | .capabilities _ => .ok []
  | .observe episodeId => .ok ⟨episodeId, [], ""⟩
  | .read .. | .checkpoint _ => .ok []
  | .act intent => .ok
    { accepted := true, standing := .alive,
      receipt := { episodeId := intent.episodeId, operation := .act, standing := .alive } }
  | .verify episodeId expected => .ok ⟨"v", episodeId, true, expected, [], ""⟩
  | .restore episodeId .. => .ok { episodeId, operation := .restore, standing := .alive }
  | .teardown episodeId _ => .ok
    { episodeId, operation := .teardown,
      standing := if log.any fun e => e.1 matches .teardown .. then .alive else .blocked }
  | .uuid4 => .ok "k"

/-- The first leg is verified again after the teardown that failed : both legs are verified, in
order, and the chain is not complete. -/
theorem leg_recorded_twice :
    ¬ CountsRight .reference twoLegs reluctant [.reset, .advance, .advance, .advance] := by
  intro h
  have hiff := (h.truthful _ [] (List.append_nil _).symm).complete_iff
  have hlegs : (List.range twoLegs.tasks.length).Sublist (ChainRun.run .reference twoLegs reluctant
      [.reset, .advance, .advance, .advance]).verified := by decide +kernel
  have hcomplete : twoLegs.complete (ChainRun.run .reference twoLegs reluctant
      [.reset, .advance, .advance, .advance]).state = false := by decide +kernel
  rw [hcomplete] at hiff
  exact Bool.false_ne_true (hiff.mpr hlegs)

end GymAct
